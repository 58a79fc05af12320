import Wzdftpd.Session
import Wzdftpd.TextBuffer

/- The server's own `strlcat`, for systems without one. What it reads is recorded: it may
read the destination up to the given size and the source up to its terminator. -/
namespace Wzdftpd

open TextBuffer List Option

/-- What a call leaves: the memory from the destination on, the value returned, and how
far the destination and the source were read. -/
structure Strlcat where
  memory : Text
  ret : Nat
  dstEnd : Nat
  srcEnd : Nat
deriving DecidableEq

/-- `while (n < size && *dst++) ++n;` with `room` for `size - n` -/
def strlcatEnd (memory : Text) : Nat → Nat → Option Nat
  | 0, n => some n
  | room + 1, n =>
    memory[n]?.bind fun c => if c = '\x00' then some n else strlcatEnd memory room (n + 1)

/-- Where the second loop stands: behind a copied terminator or at the end of the room. -/
structure StrlcatCopy where
  memory : Text
  n : Nat
  taken : Nat
  ended : Bool

/-- `while (n < size) { if (!(*dst++ = *src++)) return n; ++n; }` -/
def strlcatCopy : Nat → Nat → Nat → Text → Text → Option StrlcatCopy
  | 0, n, taken, memory, _ => some ⟨memory, n, taken, false⟩
  | room + 1, n, taken, memory, src =>
    src.head?.bind fun c => (store memory n c).bind fun memory =>
      if c = '\x00' then some ⟨memory, n, taken + 1, true⟩
      else strlcatCopy room (n + 1) (taken + 1) memory src.tail

def strlcat (memory src : Text) (size : Nat) : Option Strlcat :=
  (strlcatEnd memory size 0).bind fun n =>
    if size ≤ n then
      (terminated src).map fun word => ⟨memory, size + word.length, size, word.length + 1⟩
    else
      (strlcatCopy (size - n) n 0 memory src).bind fun copy =>
        if copy.ended then some ⟨copy.memory, copy.n, n + 1, copy.taken⟩
        else
          -- here `dst` stands behind the room, and it is its text that is counted
          (store copy.memory (size - 1) '\x00').bind fun memory =>
            (terminated (memory.drop size)).map fun behind =>
              ⟨memory, copy.n + behind.length, size + behind.length + 1, copy.taken⟩

/-- What `strlcat` is for. -/
structure Strlcat.Contract (memory word : Text) (size : Nat) (out : Strlcat) : Prop where
  destination : out.dstEnd ≤ size
  source : out.srcEnd ≤ word.length + 1
  result : '\x00' ∈ memory.take size →
    terminated (out.memory.take size) = some ((text (memory.take size) ++ word).take (size - 1))
  outside : out.memory.drop size = memory.drop size
  ret : out.ret = (text (memory.take size)).length + word.length

theorem strlcatEnd_eq {memory : Text} (room : Nat) : ∀ {n : Nat}, n + room ≤ memory.length →
    strlcatEnd memory room n = some (n + (text ((memory.drop n).take room)).length) := by
  induction room with
  | zero => simp [strlcatEnd, text]
  | succ room ih =>
    intro n inside
    have here : n < memory.length := by omega
    rw [strlcatEnd, getElem?_eq_getElem here, bind_some, drop_eq_getElem_cons here,
      take_succ_cons, text]
    split
    · rename_i null
      rw [null, takeWhile_cons_of_neg (by simp)]
      simp
    · rename_i char
      rw [ih (by omega), takeWhile_cons_of_pos (by simpa using char), length_cons, text]
      congr 1
      omega

/-- The copy of a word for which there is room, in front of what follows. -/
theorem strlcatCopy_append {word : Text} (plain : '\x00' ∉ word) (room : Nat) (src : Text) :
    ∀ (front cells : Text) (taken : Nat), word.length ≤ cells.length →
      strlcatCopy (word.length + room) front.length taken (front ++ cells) (word ++ src) =
        strlcatCopy room (front ++ word).length (taken + word.length)
          (front ++ word ++ cells.drop word.length) src := by
  induction word with
  | nil => simp
  | cons c word ih =>
    intro front cells taken inside
    rw [mem_cons, not_or] at plain
    obtain ⟨d, cells, rfl⟩ := exists_cons_of_length_pos (Nat.lt_of_lt_of_le (by simp) inside)
    have written : (front ++ d :: cells).set front.length c = front ++ [c] ++ cells := by simp
    have next := ih plain.2 (front ++ [c]) cells (taken + 1) (by simpa using inside)
    rw [length_append, length_singleton] at next
    rw [length_cons, Nat.add_right_comm, strlcatCopy, cons_append, head?_cons, bind_some,
      store_of_lt (by simp), bind_some, if_neg (Ne.symm plain.1), written, tail_cons, next]
    simp [Nat.add_comm, Nat.add_left_comm]

section

variable {memory old word cells : Text} {size : Nat}

theorem strlcatEnd_text (inside : size ≤ memory.length) (ends : text (memory.take size) = old) :
    strlcatEnd memory size 0 = some old.length := by
  rw [strlcatEnd_eq size (by omega), drop_zero, ends, Nat.zero_add]

/-- A text for which there is room is copied with its terminator. -/
theorem strlcat_of_fits (plain : '\x00' ∉ word) (fits : old.length + word.length < size)
    (inside : size ≤ (old ++ '\x00' :: cells).length)
    (ends : text ((old ++ '\x00' :: cells).take size) = old) (behind : Text) :
    strlcat (old ++ '\x00' :: cells) (word ++ '\x00' :: behind) size =
      some ⟨old ++ word ++ '\x00' :: cells.drop word.length, old.length + word.length,
        old.length + 1, word.length + 1⟩ := by
  rw [length_append, length_cons] at inside
  obtain ⟨room, more⟩ : ∃ room, size - old.length = word.length + (room + 1) :=
    ⟨size - old.length - word.length - 1, by omega⟩
  obtain ⟨d, rest, cut⟩ : ∃ d rest, ('\x00' :: cells).drop word.length = d :: rest :=
    exists_cons_of_length_pos (by rw [length_drop, length_cons]; omega)
  have last : cells.drop word.length = rest := by
    have next := congrArg tail cut
    rwa [tail_drop, drop_succ_cons] at next
  rw [strlcat, strlcatEnd_text (by simpa using inside) ends, bind_some,
    if_neg (by omega), more, strlcatCopy_append plain _ _ _ _ _ (by rw [length_cons]; omega), cut]
  simp [strlcatCopy, store, last]

/-- A text that does not fit is counted behind the room. -/
theorem size_lt_dstEnd (plain : '\x00' ∉ word) (short : old.length < size)
    (long : size ≤ old.length + word.length) (inside : size ≤ (old ++ '\x00' :: cells).length)
    (ends : text ((old ++ '\x00' :: cells).take size) = old) {behind : Text} {out : Strlcat}
    (done : strlcat (old ++ '\x00' :: cells) (word ++ '\x00' :: behind) size = some out) :
    size < out.dstEnd := by
  have cut : (word.take (size - old.length)).length = size - old.length := by
    rw [length_take]
    omega
  have front : '\x00' ∉ word.take (size - old.length) := fun null => plain (mem_of_mem_take null)
  have copied := strlcatCopy_append front 0 (word.drop (size - old.length) ++ '\x00' :: behind)
    old ('\x00' :: cells) 0 (by simp at inside ⊢; omega)
  rw [cut, Nat.add_zero, ← append_assoc, take_append_drop, strlcatCopy] at copied
  rw [strlcat, strlcatEnd_text inside ends, bind_some, if_neg (by omega), copied] at done
  simp only [bind_some, Bool.false_eq_true, if_false, bind_eq_some_iff,
    map_eq_some_iff] at done
  obtain ⟨_, _, _, _, rfl⟩ := done
  show size < size + _ + 1
  omega

end

theorem exists_text_of_null {memory : Text} {size : Nat} (null : '\x00' ∈ memory.take size) :
    ∃ old cells, memory = old ++ '\x00' :: cells ∧ text (memory.take size) = old ∧
      old.length < size := by
  have short : (text (memory.take size)).length < (memory.take size).length := by
    refine Nat.lt_of_not_le fun whole => ?_
    have all := (List.takeWhile_prefix (· ≠ '\x00')).eq_of_length_le whole
    exact null_notMem_text (all.symm ▸ null)
  obtain ⟨_, more, front⟩ := terminated_eq_some (if_pos short)
  refine ⟨_, more ++ memory.drop size, ?_, rfl, by rw [length_take] at short; omega⟩
  conv_lhs => rw [← take_append_drop size memory, front]
  simp

/-- `strlcat` keeps its contract exactly if the text fits: when it cuts, it reads on behind
the destination. -/
theorem strlcat_contract_iff (memory src word : Text) (size : Nat) (inside : size ≤ memory.length)
    (source : terminated src = some word) :
    (∃ out, strlcat memory src size = some out ∧ out.Contract memory word size) ↔
      ('\x00' ∈ memory.take size → (text (memory.take size)).length + word.length < size) := by
  obtain ⟨same, behind, rfl⟩ := terminated_eq_some source
  have plain : '\x00' ∉ word := same ▸ null_notMem_text
  by_cases null : '\x00' ∈ memory.take size
  · obtain ⟨old, _, rfl, ends, short⟩ := exists_text_of_null null
    rw [ends]
    constructor
    · rintro ⟨out, done, kept⟩ _
      refine Nat.lt_of_not_le fun long => ?_
      have far := size_lt_dstEnd plain short long inside ends done
      exact absurd kept.destination (Nat.not_le.mpr far)
    · intro fits
      obtain ⟨_, more⟩ := Nat.exists_eq_add_of_lt (fits null)
      rw [← length_append] at more
      refine ⟨_, strlcat_of_fits plain (fits null) inside ends behind, ?_, ?_, fun _ => ?_, ?_, ?_⟩
      · show old.length + 1 ≤ size
        omega
      · exact Nat.le_refl _
      · have clean : '\x00' ∉ old ++ word := by
          rw [mem_append, not_or]
          exact ⟨ends ▸ null_notMem_text, plain⟩
        have whole : (old ++ word).take (size - 1) = old ++ word := take_of_length_le (by omega)
        rw [ends, whole, more, Nat.add_assoc, take_length_add_append, take_succ_cons,
          terminated_append clean]
      · rw [more, Nat.add_assoc, drop_length_add_append, drop_succ_cons, drop_drop, length_append,
          Nat.add_assoc, drop_length_add_append, ← Nat.add_assoc, drop_succ_cons]
      · rw [ends]
  · have whole : text (memory.take size) = memory.take size := by
      apply takeWhile_eq_self_iff.mpr
      intro c member
      rw [decide_eq_true_eq]
      exact fun same => null (same ▸ member)
    have length : (memory.take size).length = size := by
      rw [length_take]
      omega
    refine ⟨fun _ here => absurd here null, fun _ =>
      ⟨⟨memory, size + word.length, size, word.length + 1⟩, ?_, ?_⟩⟩
    · rw [strlcat, strlcatEnd_text inside whole, bind_some, if_pos (by omega), source]
      rfl
    · exact ⟨Nat.le_refl _, Nat.le_refl _, fun here => absurd here null, rfl, by rw [whole, length]⟩

theorem strlcat_contract_iff_room : ∃ out, strlcat "ab\x00...".toList "cd\x00".toList 5 = some out ∧
      out.Contract "ab\x00...".toList "cd".toList 5 :=
  (strlcat_contract_iff _ _ _ 5 (by decide) (by decide)).mpr fun _ => by decide

/-- "cd" behind "ab" in three bytes: a fourth byte is read, and what it holds decides the
value. -/
theorem strlcat_reads_behind :
    ∃ out, strlcat "ab\x00\x00".toList "cd\x00".toList 3 = some out ∧ out.dstEnd = 4 ∧
      out.ret = 3 ∧ ¬out.Contract "ab\x00\x00".toList "cd".toList 3 := by
  refine ⟨⟨"ab\x00\x00".toList, 3, 4, 1⟩, by decide, rfl, rfl, fun kept => ?_⟩
  exact absurd kept.destination (by decide)

end Wzdftpd
