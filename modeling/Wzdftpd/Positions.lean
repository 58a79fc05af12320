import Mathlib.Data.Finset.Max

/- Removal of list entries by their position, counted from 1: all at once, or one after
the other, where every removal moves the entries behind it. -/
namespace Positions

open List

variable {α : Type}

/-- The entries whose position is not among `slots`, where the first has position `n`. -/
def withoutFrom (slots : List Nat) : Nat → List α → List α
  | _, [] => []
  | n, x :: list =>
    if n ∈ slots then withoutFrom slots (n + 1) list
    else x :: withoutFrom slots (n + 1) list

/-- The list without the entries at `slots`. -/
def without (slots : List Nat) (list : List α) : List α := withoutFrom slots 1 list

/-- The removal of one entry; position 0 is taken for 1. -/
def remove (list : List α) (slot : Nat) : Option (List α) :=
  if slot - 1 < list.length then some (list.eraseIdx (slot - 1)) else none

def removeEach (slots : List Nat) (list : List α) : Option (List α) := slots.foldlM remove list

/-- Positions that no removal before them has moved. -/
def Descending (slots : List Nat) : Prop := slots.Pairwise (· > ·) ∧ 0 ∉ slots

instance (slots : List Nat) : Decidable (Descending slots) :=
  inferInstanceAs (Decidable (_ ∧ _))

variable {slot : Nat}

variable {slots : List Nat}

theorem descending_cons :
    Descending (slot :: slots) ↔ 0 < slot ∧ (∀ later ∈ slots, later < slot) ∧ Descending slots := by
  unfold Descending
  rw [pairwise_cons, mem_cons, not_or]
  constructor
  · intro both
    exact ⟨Nat.pos_of_ne_zero (Ne.symm both.2.1), both.1.1, both.1.2, both.2.2⟩
  · intro both
    exact ⟨⟨both.2.1, both.2.2.1⟩, Nat.ne_of_lt both.1, both.2.2.2⟩

theorem withoutFrom_of_lt : ∀ {n : Nat} (list : List α),
    (∀ slot ∈ slots, slot < n) → withoutFrom slots n list = list := by
  intro n list
  induction list generalizing n with
  | nil => exact fun _ => rfl
  | cons x list ih =>
    intro below
    have outside : n ∉ slots := fun member => Nat.lt_irrefl n (below n member)
    rw [withoutFrom, if_neg outside, ih fun slot member => Nat.lt_succ_of_lt (below slot member)]

theorem withoutFrom_append (slots : List Nat) (front back : List α) : ∀ n,
    withoutFrom slots n (front ++ back) =
      withoutFrom slots n front ++ withoutFrom slots (n + front.length) back := by
  induction front with
  | nil => exact fun _ => rfl
  | cons x front ih =>
    intro n
    have next : n + (x :: front).length = n + 1 + front.length := by
      rw [length_cons]
      omega
    rw [cons_append, withoutFrom, withoutFrom, ih, next]
    by_cases inside : n ∈ slots
    · rw [if_pos inside, if_pos inside]
    · simp [inside]

theorem withoutFrom_congr {others : List Nat} (list : List α) : ∀ {n : Nat},
    (∀ m < n + list.length, m ∈ slots ↔ m ∈ others) →
    withoutFrom slots n list = withoutFrom others n list := by
  induction list with
  | nil => exact fun _ => rfl
  | cons x list ih =>
    intro n same
    rw [length_cons] at same
    rw [withoutFrom, ih fun m below => same m (by omega)]
    exact if_congr (same n (by omega)) rfl rfl

variable {list : List α}

/-- The largest position may be removed first. -/
theorem without_cons (positive : 0 < slot)
    (inside : slot ≤ list.length) (largest : ∀ later ∈ slots, later < slot) :
    without (slot :: slots) list = without slots (list.eraseIdx (slot - 1)) := by
  obtain ⟨front, x, back, rfl, length⟩ : ∃ front x back, list = front ++ x :: back ∧
      front.length = slot - 1 := by
    refine ⟨list.take (slot - 1), list[slot - 1], list.drop (slot - 1 + 1), ?_, ?_⟩
    · simp
    · rw [length_take]
      omega
  have position : 1 + front.length = slot := by omega
  have before : withoutFrom (slot :: slots) 1 front = withoutFrom slots 1 front := by
    apply withoutFrom_congr
    intro m below
    rw [mem_cons, or_iff_right (by omega)]
  have after : withoutFrom (slot :: slots) (slot + 1) back = back := by
    apply withoutFrom_of_lt
    intro m member
    rcases mem_cons.mp member with rfl | later
    · omega
    · have := largest m later
      omega
  rw [← length, eraseIdx_append_of_length_le (Nat.le_refl _), Nat.sub_self,
    eraseIdx_cons_zero, without, without, withoutFrom_append, withoutFrom_append, position,
    withoutFrom, if_pos mem_cons_self, before, after, withoutFrom_of_lt back largest]

theorem removeEach_cons {removed : List α} :
    removeEach (slot :: slots) list = some removed ↔ slot - 1 < list.length ∧
        removeEach slots (list.eraseIdx (slot - 1)) = some removed := by
  unfold removeEach
  rw [foldlM_cons, remove]
  by_cases inside : slot - 1 < list.length
  · simp [inside]
  · rw [if_neg inside]
    exact iff_of_false (fun impossible => by cases impossible) (fun both => inside both.1)

theorem sublist_of_removeEach (slots : List Nat) : ∀ {list removed : List α},
    removeEach slots list = some removed → removed.Sublist list := by
  induction slots with
  | nil =>
    intro list removed done
    rw [Option.some.inj done]
  | cons slot slots ih =>
    intro list removed done
    exact (ih (removeEach_cons.mp done).2).trans (eraseIdx_sublist list (slot - 1))

theorem removeEach_of_descending (slots : List Nat) : ∀ {list removed : List α},
    Descending slots → removeEach slots list = some removed → removed = without slots list := by
  induction slots with
  | nil =>
    intro list removed _ done
    rw [← Option.some.inj done, without, withoutFrom_of_lt list (by simp)]
  | cons slot slots ih =>
    intro list removed descending done
    obtain ⟨positive, largest, descending⟩ := descending_cons.mp descending
    obtain ⟨_, done⟩ := removeEach_cons.mp done
    rw [without_cons positive (by omega) largest]
    exact ih descending done

/-- Fewer than `slot` entries in front of `back`: some entry of `back` goes. -/
theorem exists_removed {back : List α} {slot : Nat} (slots : List Nat) : ∀ {front removed : List α},
    (front ++ back).Nodup → front.length < slot → slot ∈ slots →
    removeEach slots (front ++ back) = some removed → ∃ x ∈ back, x ∉ removed := by
  induction slots with
  | nil =>
    intro front removed _ _ member
    cases member
  | cons next slots ih =>
    intro front removed once short member done
    obtain ⟨inside, done⟩ := removeEach_cons.mp done
    by_cases early : next - 1 < front.length
    · rw [eraseIdx_append_of_lt_length early] at done
      have later : slot ∈ slots := by
        rcases mem_cons.mp member with rfl | later
        · omega
        · exact later
      refine ih ?_ ?_ later done
      · exact once.sublist ((eraseIdx_sublist front _).append_right back)
      · rw [length_eraseIdx_of_lt early]
        omega
    · have behind : next - 1 - front.length < back.length := by
        rw [length_append] at inside
        omega
      refine ⟨back[next - 1 - front.length], getElem_mem behind, fun kept => ?_⟩
      have same : (front ++ back)[next - 1] = back[next - 1 - front.length] :=
        getElem_append_right (Nat.le_of_not_lt early)
      have still := (sublist_of_removeEach slots done).subset kept
      obtain ⟨_, _, differ, equal⟩ := mem_eraseIdx_iff_getElem.mp still
      exact differ (once.getElem_inj_iff.mp (equal.trans same.symm))

theorem mem_without_of_mem_drop {bound : Nat} {x : α}
    (below : ∀ slot ∈ slots, slot ≤ bound) (member : x ∈ list.drop bound) :
    x ∈ without slots list := by
  rw [without, ← take_append_drop bound list, withoutFrom_append]
  apply mem_append_right
  have long : bound < list.length := by
    by_contra short
    rw [drop_eq_nil_of_le (Nat.le_of_not_lt short)] at member
    cases member
  have length : (list.take bound).length = bound := by
    rw [length_take]
    omega
  rw [withoutFrom_of_lt _ fun slot inside => by have := below slot inside; omega]
  exact member

/-- The largest position has to come first. -/
theorem largest_first (once : list.Nodup)
    (done : removeEach (slot :: slots) list = some (without (slot :: slots) list)) :
    ∀ later ∈ slots, later < max slot 1 := by
  intro later member
  by_contra large
  obtain ⟨top, among, highest⟩ : ∃ top ∈ slots, ∀ other ∈ slot :: slots, other ≤ top := by
    obtain ⟨top, among, highest⟩ := Finset.exists_max_image slots.toFinset (fun other => other)
      ⟨later, mem_toFinset.mpr member⟩
    refine ⟨top, mem_toFinset.mp among, fun other inside => ?_⟩
    rcases mem_cons.mp inside with rfl | inside
    · have := highest later (mem_toFinset.mpr member)
      omega
    · exact highest other (mem_toFinset.mpr inside)
  have top_large := highest later (mem_cons_of_mem slot member)
  obtain ⟨inside, done⟩ := removeEach_cons.mp done
  have early : slot - 1 < (list.take top).length := by
    rw [length_take]
    omega
  have split : list.eraseIdx (slot - 1) = (list.take top).eraseIdx (slot - 1) ++ list.drop top := by
    simp [← eraseIdx_append_of_lt_length early]
  rw [split] at done
  obtain ⟨_, behind, gone⟩ := exists_removed slots
    (by rw [← split]; exact once.sublist (eraseIdx_sublist list _))
    (by rw [length_eraseIdx_of_lt early, length_take]; omega) among done
  exact gone (mem_without_of_mem_drop highest behind)

/-- One after the other removes what all at once removes exactly if the positions descend. -/
theorem removeEach_eq_without_iff (slots : List Nat) : ∀ {list removed : List α}, list.Nodup →
    removeEach slots list = some removed → (removed = without slots list ↔ Descending slots) := by
  intro list removed once done
  constructor
  · intro exact
    subst exact
    induction slots generalizing list with
    | nil => exact ⟨List.Pairwise.nil, not_mem_nil⟩
    | cons slot slots ih =>
      have first := largest_first once done
      obtain ⟨inside, rest⟩ := removeEach_cons.mp done
      by_cases positive : 0 < slot
      · have largest : ∀ later ∈ slots, later < slot := fun later member => by
          have := first later member
          omega
        rw [without_cons positive (by omega) largest] at rest
        exact descending_cons.mpr ⟨positive, largest,
          ih (once.sublist (eraseIdx_sublist list _)) rest⟩
      · -- position 0 is no position, but an entry is removed for it
        have kept : without (slot :: slots) list = list := by
          apply withoutFrom_of_lt
          intro other member
          rcases mem_cons.mp member with rfl | later
          · omega
          · have := first other later
            omega
        rw [kept] at rest
        have shorter := (sublist_of_removeEach slots rest).length_le
        rw [length_eraseIdx_of_lt inside] at shorter
        omega
  · exact fun descending => removeEach_of_descending slots descending done

end Positions
