import Mathlib.Data.List.Basic
import Mathlib.Data.List.TakeDrop
import Mathlib.Data.List.TakeWhile

/- Texts in memory that end at a null character. An access outside of the memory gives
`none`, so that an access that succeeds is the same in every larger memory. -/
namespace TextBuffer

open List

/-- `memory[i] = c` -/
def store (memory : List Char) (i : Nat) (c : Char) : Option (List Char) :=
  if i < memory.length then some (memory.set i c) else none

/-- A block is copied to an offset. -/
def place (memory : List Char) (offset : Nat) (block : List Char) : Option (List Char) :=
  if offset + block.length ≤ memory.length then
    some (memory.take offset ++ block ++ memory.drop (offset + block.length))
  else none

def text (memory : List Char) : List Char := memory.takeWhile (· ≠ '\x00')

/-- A text is copied to a memory, with its terminator if that is among the first `n`
characters. -/
def copyText (memory source : List Char) (n : Nat) : Option (List Char) :=
  if (text source).length < n then
    if (text source).length < source.length then place memory 0 (text source ++ ['\x00']) else none
  else place memory 0 (source.take n)

/-- The text in a memory, if it ends there. -/
def terminated (memory : List Char) : Option (List Char) :=
  if (text memory).length < memory.length then some (text memory) else none

/-- The comparison of a word with the characters from a position on, which ends at the
first difference. -/
def startsAt (memory : List Char) : List Char → Nat → Option Bool
  | [], _ => some true
  | c :: word, pos =>
    memory[pos]?.bind fun d => if d = c then startsAt memory word (pos + 1) else some false

variable {memory after more rest behind word : List Char} {i pos : Nat} {c : Char}

theorem text_append (plain : '\x00' ∉ word) (behind : List Char) :
    text (word ++ '\x00' :: behind) = word := by
  have all : ∀ c ∈ word, decide (c ≠ '\x00') = true := by
    intro c member
    rw [decide_eq_true_eq]
    exact fun null => plain (null ▸ member)
  rw [text, takeWhile_append_of_pos all, takeWhile_cons_of_neg (by simp), append_nil]

theorem null_notMem_text : '\x00' ∉ text memory := by
  intro null
  have impossible := mem_takeWhile_imp null
  rw [decide_eq_true_eq] at impossible
  exact impossible rfl

theorem terminated_append (plain : '\x00' ∉ word) (behind : List Char) :
    terminated (word ++ '\x00' :: behind) = some word := by
  rw [terminated, text_append plain, if_pos]
  rw [length_append, length_cons]
  omega

theorem terminated_eq_some (ends : terminated memory = some word) :
    text memory = word ∧ ∃ behind, memory = word ++ '\x00' :: behind := by
  unfold terminated at ends
  split at ends
  · rename_i inside
    cases ends
    refine ⟨rfl, ?_⟩
    have whole : text memory ++ memory.dropWhile (· ≠ '\x00') = memory :=
      takeWhile_append_dropWhile
    cases left : memory.dropWhile (· ≠ '\x00') with
    | nil =>
      rw [left, append_nil] at whole
      rw [whole] at inside
      exact absurd inside (Nat.lt_irrefl _)
    | cons c behind =>
      have null := head?_dropWhile_not (· ≠ '\x00') memory
      rw [left] at null
      have same : c = '\x00' := not_not.mp (of_decide_eq_false null)
      rw [left, same] at whole
      exact ⟨behind, whole.symm⟩
  · cases ends

theorem place_append {front : List Char} (room : word.length ≤ rest.length) :
    place (front ++ rest) front.length word = some (front ++ word ++ rest.drop word.length) := by
  rw [place, if_pos (by rw [length_append]; omega), take_left, ← drop_drop, drop_left]

theorem place_length {offset : Nat} (placed : place memory offset word = some after) :
    after.length = memory.length := by
  unfold place at placed
  split at placed
  · cases placed
    rw [length_append, length_append, length_take, length_drop]
    omega
  · cases placed

theorem copyText_text (memory source : List Char) (n : Nat)
    (ends : (text source).length < source.length) (short : (text source).length < n)
    (room : (text source).length < memory.length) :
    ∃ after, copyText memory source n = some after ∧ terminated after = some (text source) ∧
      after.length = memory.length := by
  have fits : 0 + (text source ++ ['\x00']).length ≤ memory.length := by
    rw [length_append, length_singleton]
    omega
  rw [copyText, if_pos short, if_pos ends, place, if_pos fits]
  refine ⟨_, rfl, ?_, ?_⟩
  · rw [take_zero, nil_append, append_assoc]
    exact terminated_append null_notMem_text _
  · rw [take_zero, nil_append, length_append, length_drop]
    omega

theorem place_getElem? {offset : Nat} (placed : place memory offset word = some after)
    (behind : offset + word.length ≤ i) : after[i]? = memory[i]? := by
  unfold place at placed
  split at placed
  · cases placed
    have front : (memory.take offset ++ word).length = offset + word.length := by
      rw [length_append, length_take, Nat.min_eq_left (by omega)]
    rw [getElem?_append_right (front.symm ▸ behind), front, getElem?_drop,
      Nat.add_sub_cancel' behind]
  · cases placed

theorem place_of_copyText {source : List Char} {n : Nat}
    (copied : copyText memory source n = some after) :
    ∃ block, block.length ≤ n ∧ place memory 0 block = some after := by
  unfold copyText at copied
  split at copied
  · rename_i short
    split at copied
    · exact ⟨_, by rw [length_append]; exact short, copied⟩
    · cases copied
  · exact ⟨_, length_take_le _ _, copied⟩

theorem store_of_lt (inside : i < memory.length) (c : Char) :
    store memory i c = some (memory.set i c) := if_pos inside

theorem length_of_store (done : store memory i c = some after) :
    i < memory.length ∧ after = memory.set i c := by
  unfold store at done
  split at done
  · rename_i inside
    cases done
    exact ⟨inside, rfl⟩
  · cases done

theorem getElem?_behind (start : word ++ [c] <+: memory) : memory[word.length]? = some c := by
  obtain ⟨_, rfl⟩ := start
  simp

theorem prefix_set (start : word <+: memory) (inside : word.length < memory.length) (c : Char) :
    word ++ [c] <+: memory.set word.length c := by
  obtain ⟨behind, rfl⟩ := start
  cases behind with
  | nil => simp at inside
  | cons d behind => exact ⟨behind, by simp⟩

theorem store_of_take (inside : i < memory.length) (front : memory.take i = word) (c : Char) :
    store memory i c = some (word ++ c :: memory.drop (i + 1)) := by
  rw [store_of_lt inside, set_eq_take_append_cons_drop, if_pos inside, front]

theorem getElem?_frame {d : Char} (found : memory[i]? = some d) (more : List Char) :
    (memory ++ more)[i]? = some d := by
  rw [getElem?_append_left (List.getElem?_eq_some_iff.mp found).1, found]

theorem getElem?_null (memory behind : List Char) :
    (memory ++ '\x00' :: behind)[memory.length]? = some '\x00' := by
  simp

theorem store_frame (done : store memory i c = some after) (more : List Char) :
    store (memory ++ more) i c = some (after ++ more) := by
  obtain ⟨inside, rfl⟩ := length_of_store done
  rw [store_of_lt (by rw [length_append]; omega), set_append_left _ _ inside]

/-- A comparison that a null character of the text ends is a comparison with the memory. -/
theorem startsAt_eq : ∀ {word rest : List Char} {pos : Nat}, '\x00' ∉ word.dropLast →
    memory.drop pos = rest ++ '\x00' :: behind →
      startsAt memory word pos = some (decide (word <+: memory.drop pos)) := by
  intro word
  induction word with
  | nil =>
    intro rest pos _ _
    simp [startsAt]
  | cons c word ih =>
    intro rest pos plain left
    obtain ⟨d, tail, same⟩ : ∃ d tail, memory.drop pos = d :: tail := by
      rw [left]
      exact exists_cons_of_ne_nil (by simp)
    have here : memory[pos]? = some d := by
      rw [← Nat.add_zero pos, ← getElem?_drop, same]
      rfl
    rw [startsAt, here, Option.bind_some, same]
    by_cases equal : d = c
    · rw [if_pos equal, equal]
      simp only [cons_prefix_cons, true_and]
      have next : memory.drop (pos + 1) = tail := by
        rw [← drop_drop, same]
        rfl
      cases word with
      | nil => rw [startsAt, decide_eq_true nil_prefix]
      | cons e word =>
        rw [dropLast_cons_cons, mem_cons, not_or] at plain
        cases rest with
        | nil =>
          rw [left, nil_append, cons.injEq] at same
          exact absurd (same.1.trans equal) plain.1
        | cons f rest =>
          rw [left, cons_append, cons.injEq] at same
          rw [ih plain.2 (next.trans same.2.symm), next]
    · rw [if_neg equal]
      simp [Ne.symm equal]

theorem prefix_text_iff (plain : '\x00' ∉ word) :
    word <+: rest ++ '\x00' :: behind ↔ word <+: rest := by
  constructor
  · intro front
    rcases Nat.lt_or_ge rest.length word.length with long | short
    · have whole : rest ++ ['\x00'] <+: rest ++ '\x00' :: behind := ⟨behind, by simp⟩
      have inside := prefix_of_prefix_length_le whole front (by rw [length_append]; exact long)
      exact absurd (inside.subset (by simp)) plain
    · exact prefix_of_prefix_length_le front (prefix_append _ _) short
  · exact fun front => front.trans (prefix_append _ _)

theorem closed_prefix_text_iff (plain : '\x00' ∉ word) (whole : '\x00' ∉ rest) :
    word ++ ['\x00'] <+: rest ++ '\x00' :: behind ↔ rest = word := by
  constructor
  · rintro ⟨tail, same⟩
    rw [← text_append whole behind, ← same, append_assoc]
    exact text_append plain tail
  · rintro rfl
    exact ⟨behind, by simp⟩

end TextBuffer
