import Mathlib.Data.List.Basic

/- Patterns with wildcards: one item for any word, one for any letter, and the letters
themselves. A pattern matches a whole word. -/
namespace Wildcards

open List

variable {α : Type}

inductive Item (α : Type) where
  | many
  | one
  | exactly (a : α)
  deriving DecidableEq, Repr

def Item.Accepts : Item α → α → Prop
  | .many, _ => False
  | .one, _ => True
  | .exactly b, a => b = a

def Matches : List (Item α) → List α → Prop
  | [], word => word = []
  | .many :: pattern, word => ∃ rest, rest <:+ word ∧ Matches pattern rest
  | item :: pattern, word => ∃ a rest, word = a :: rest ∧ item.Accepts a ∧ Matches pattern rest

@[simp] theorem matches_nil (word : List α) : Matches [] word ↔ word = [] := Iff.rfl

theorem matches_cons {item : Item α} (single : item ≠ .many) (pattern : List (Item α))
    (word : List α) :
    Matches (item :: pattern) word ↔
      ∃ a rest, word = a :: rest ∧ item.Accepts a ∧ Matches pattern rest := by
  cases item with
  | many => exact absurd rfl single
  | one => exact Iff.rfl
  | exactly b => exact Iff.rfl

theorem matches_append (first second : List (Item α)) (word : List α) :
    Matches (first ++ second) word ↔
      ∃ front back, word = front ++ back ∧ Matches first front ∧ Matches second back := by
  induction first generalizing word with
  | nil =>
    constructor
    · exact fun whole => ⟨[], word, rfl, rfl, whole⟩
    · rintro ⟨front, back, rfl, rfl, whole⟩
      exact whole
  | cons item first ih =>
    rw [cons_append]
    by_cases many : item = .many
    · subst many
      constructor
      · rintro ⟨rest, ⟨skipped, rfl⟩, inner⟩
        obtain ⟨front, back, rfl, left, right⟩ := (ih rest).mp inner
        exact ⟨skipped ++ front, back, by simp, ⟨front, suffix_append _ _, left⟩, right⟩
      · rintro ⟨front, back, rfl, ⟨inner, ⟨skipped, rfl⟩, left⟩, right⟩
        refine ⟨inner ++ back, ⟨skipped, by simp⟩, (ih _).mpr ⟨inner, back, rfl, left, right⟩⟩
    · rw [matches_cons many]
      constructor
      · rintro ⟨a, rest, rfl, accepts, inner⟩
        obtain ⟨front, back, rfl, left, right⟩ := (ih rest).mp inner
        exact ⟨a :: front, back, rfl,
          (matches_cons many _ _).mpr ⟨a, front, rfl, accepts, left⟩, right⟩
      · rintro ⟨front, back, rfl, left, right⟩
        obtain ⟨a, rest, rfl, accepts, inner⟩ := (matches_cons many _ _).mp left
        exact ⟨a, rest ++ back, rfl, accepts, (ih _).mpr ⟨rest, back, rfl, inner, right⟩⟩

variable {pattern : List (Item α)}

theorem Matches.length_eq {word : List α}
    (matched : Matches pattern word) (single : Item.many ∉ pattern) :
    word.length = pattern.length := by
  induction pattern generalizing word with
  | nil => exact congrArg length ((matches_nil word).mp matched)
  | cons item pattern ih =>
    obtain ⟨other, rest⟩ := not_or.mp (mem_cons.not.mp single)
    obtain ⟨_, _, rfl, _, inner⟩ := (matches_cons (Ne.symm other) _ _).mp matched
    simp [ih inner rest]

theorem Matches.length_le [DecidableEq α] {pattern : List (Item α)} {word : List α}
    (matched : Matches pattern word) : (pattern.filter (· ≠ .many)).length ≤ word.length := by
  induction pattern generalizing word with
  | nil => exact Nat.zero_le _
  | cons item pattern ih =>
    by_cases many : item = .many
    · subst many
      obtain ⟨rest, part, inner⟩ := matched
      exact Nat.le_trans (ih inner) part.length_le
    · obtain ⟨_, rest, rfl, _, inner⟩ := (matches_cons many _ _).mp matched
      rw [filter_cons_of_pos (by simpa using many)]
      exact Nat.succ_le_succ (ih inner)

theorem Matches.of_nil (some' : pattern ≠ [])
    (matched : Matches pattern []) (word : List α) : Matches pattern word := by
  cases pattern with
  | nil => exact absurd rfl some'
  | cons item pattern =>
    by_cases many : item = .many
    · subst many
      obtain ⟨rest, part, inner⟩ := matched
      rw [suffix_nil.mp part] at inner
      exact ⟨[], nil_suffix, inner⟩
    · obtain ⟨_, rest, impossible, _⟩ := (matches_cons many _ _).mp matched
      cases impossible

/-- A pattern whose first item of one letter does not accept the first letter of a word
matches without that letter. -/
theorem Matches.tail {a : α} {word : List α} (matched : Matches pattern (a :: word))
    (refused : ∀ front item rest, pattern = front ++ item :: rest →
      (∀ other ∈ front, other = .many) → ¬item.Accepts a) : Matches pattern word := by
  induction pattern with
  | nil => cases matched
  | cons item pattern ih =>
    by_cases many : item = .many
    · subst many
      obtain ⟨rest, part, inner⟩ := matched
      rcases suffix_cons_iff.mp part with rfl | part
      · refine ⟨word, suffix_refl _, ih inner fun front item rest split all => ?_⟩
        refine refused (.many :: front) item rest (by rw [split]; rfl) fun other member => ?_
        rcases mem_cons.mp member with rfl | member
        · rfl
        · exact all other member
      · exact ⟨rest, part, inner⟩
    · obtain ⟨_, rest, same, accepts, _⟩ := (matches_cons many _ _).mp matched
      obtain ⟨rfl, rfl⟩ := cons.inj same
      exact absurd accepts (refused [] item pattern rfl (by simp))

end Wildcards
