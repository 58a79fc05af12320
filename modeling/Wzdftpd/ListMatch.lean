import Mathlib.Data.List.TakeWhile
import Wzdftpd.Session
import Wzdftpd.Wildcards

/- `list_match` and `guess_star` of wzd_list.c, which decide whether a file is listed under
a mask, and `my_str_compare` of wzd_misc.c. -/
namespace Wzdftpd

open Wildcards List

/-- The loop of `list_match`: its answer, or nothing where it comes to a star. -/
def scanMask : Text → Text → Option Bool
  | [], str => some str.isEmpty
  | m :: _, [] => if m = '*' then none else some false
  | m :: mask, c :: str =>
    if m = '*' then none
    else if m = '?' ∨ m = c then scanMask mask str
    else some false

/-- `guess_star`, with `list_match` for the mask it is given. -/
def guessStar (listMatch : Text → Bool) (str mask : Text) : Bool :=
  mask.isEmpty || (range str.length).any fun i => listMatch (str.drop i)

/-- `list_match`. At a star it goes on with `mask + 1` and from the start of the name. It is
never called with an empty mask. -/
def listMatch : Text → Text → Bool
  | _, [] => false
  | str, m :: mask =>
    match scanMask (m :: mask) str with
    | some answer => answer
    | none => guessStar (fun str => listMatch str mask) str mask

def maskItem (c : Char) : Wildcards.Item Char :=
  if c = '*' then .many else if c = '?' then .one else .exactly c

def Glob (mask name : Text) : Prop := Matches (mask.map maskItem) name

/-- Stars stand between two characters that one character can stand for. -/
def Clash (mask : Text) : Prop :=
  ∃ front c stars d rest, mask = front ++ c :: (stars ++ d :: rest) ∧ stars ≠ [] ∧
    (∀ star ∈ stars, star = '*') ∧ c ≠ '*' ∧ d ≠ '*' ∧ (c = d ∨ c = '?' ∨ d = '?')

section Items

variable {m c d : Char} {mask name : Text}

theorem maskItem_eq_many : maskItem m = .many ↔ m = '*' := by
  unfold maskItem
  split
  · simp_all
  · split <;> simp_all

theorem maskItem_accepts (single : m ≠ '*') : (maskItem m).Accepts c ↔ m = '?' ∨ m = c := by
  rw [maskItem, if_neg single]
  split
  · simp_all [Wildcards.Item.Accepts]
  · simp_all [Wildcards.Item.Accepts]

theorem glob_star : Glob ('*' :: mask) name ↔ ∃ rest, rest <:+ name ∧ Glob mask rest := Iff.rfl

theorem glob_cons (single : m ≠ '*') :
    Glob (m :: mask) name ↔ ∃ c rest, name = c :: rest ∧ (m = '?' ∨ m = c) ∧ Glob mask rest := by
  rw [Glob, map_cons, matches_cons (maskItem_eq_many.not.mpr single)]
  simp only [maskItem_accepts single]
  exact Iff.rfl

theorem glob_cons_cons (single : m ≠ '*') :
    Glob (m :: mask) (c :: name) ↔ (m = '?' ∨ m = c) ∧ Glob mask name := by
  rw [glob_cons single]
  constructor
  · rintro ⟨_, _, same, accepts, inner⟩
    cases same
    exact ⟨accepts, inner⟩
  · rintro ⟨accepts, inner⟩
    exact ⟨c, name, rfl, accepts, inner⟩

theorem glob_append (first second name : Text) :
    Glob (first ++ second) name ↔
      ∃ front back, name = front ++ back ∧ Glob first front ∧ Glob second back := by
  rw [Glob, map_append, matches_append]
  exact Iff.rfl

end Items

section Match

variable {m : Char} {mask str : Text}

/-- A mask without a star is compared to its end; otherwise the part in front of the first
star is looked for at the start. -/
theorem scanMask_eq (mask : Text) : ∀ str,
    (scanMask mask str = none ↔ '*' ∈ mask ∧ Glob (mask.takeWhile (· ≠ '*') ++ ['*']) str) ∧
    (scanMask mask str = some true ↔ '*' ∉ mask ∧ Glob mask str) := by
  induction mask with
  | nil =>
    intro str
    cases str <;> simp [scanMask, Glob]
  | cons m mask ih =>
    intro str
    by_cases star : m = '*'
    · subst star
      have all : Glob ['*'] str := ⟨[], nil_suffix, rfl⟩
      have stops : scanMask ('*' :: mask) str = none := by
        cases str <;> exact if_pos rfl
      rw [stops]
      simp [all]
    · have shape : (m :: mask).takeWhile (· ≠ '*') ++ ['*'] =
          m :: (mask.takeWhile (· ≠ '*') ++ ['*']) := by
        rw [takeWhile_cons_of_pos (by simpa using star), cons_append]
      have same : '*' ∈ m :: mask ↔ '*' ∈ mask := by
        simp [Ne.symm star]
      rw [shape, same]
      cases str with
      | nil => simp [scanMask, star, glob_cons star]
      | cons c str =>
        rw [scanMask, if_neg star, glob_cons_cons star, glob_cons_cons star]
        by_cases accepts : m = '?' ∨ m = c
        · simp only [accepts, true_and]
          exact ih str
        · simp [accepts]

theorem guessStar_iff (listMatch : Text → Bool) (str mask : Text) :
    guessStar listMatch str mask = true ↔
      mask = [] ∨ ∃ rest, rest ≠ [] ∧ rest <:+ str ∧ listMatch rest = true := by
  rw [guessStar, Bool.or_eq_true, List.isEmpty_iff, any_eq_true]
  refine or_congr_right ⟨?_, ?_⟩
  · rintro ⟨i, low, matched⟩
    exact ⟨str.drop i, by simpa using low, drop_suffix _ _, matched⟩
  · rintro ⟨rest, some', ⟨front, rfl⟩, matched⟩
    refine ⟨front.length, mem_range.mpr ?_, by rwa [drop_left]⟩
    rw [length_append]
    have positive := length_pos_iff.mpr some'
    omega

theorem listMatch_star : listMatch str ('*' :: mask) = true ↔
    mask = [] ∨ ∃ rest, rest ≠ [] ∧ rest <:+ str ∧ listMatch rest mask = true := by
  have stops : scanMask ('*' :: mask) str = none :=
    (scanMask_eq _ str).1.mpr ⟨mem_cons_self, by
      exact ⟨[], nil_suffix, rfl⟩⟩
  rw [listMatch, stops]
  exact guessStar_iff _ str mask

/-- With a star further on, the part in front of it is looked for at the start of the name,
and the mask without its first character in all of the name. -/
theorem listMatch_cons (single : m ≠ '*') (star : '*' ∈ mask) :
    listMatch str (m :: mask) = true ↔ Glob (m :: mask.takeWhile (· ≠ '*') ++ ['*']) str ∧
        ∃ rest, rest ≠ [] ∧ rest <:+ str ∧ listMatch rest mask = true := by
  have inside : '*' ∈ m :: mask := mem_cons_of_mem _ star
  have some' : mask ≠ [] := ne_nil_of_mem star
  have shape : (m :: mask).takeWhile (· ≠ '*') = m :: mask.takeWhile (· ≠ '*') :=
    takeWhile_cons_of_pos (by simpa using single)
  have scan := scanMask_eq (m :: mask) str
  rw [shape] at scan
  rw [listMatch]
  cases answer : scanMask (m :: mask) str with
  | none =>
    refine (guessStar_iff _ str mask).trans ⟨fun either => ?_, fun both => Or.inr both.2⟩
    exact ⟨(scan.1.mp answer).2, either.resolve_left some'⟩
  | some answer' =>
    cases answer' with
    | true => exact absurd inside (scan.2.mp answer).1
    | false =>
      have other : ¬Glob (m :: mask.takeWhile (· ≠ '*') ++ ['*']) str := by
        intro starts
        rw [scan.1.mpr ⟨inside, starts⟩] at answer
        cases answer
      refine ⟨fun impossible => ?_, fun both => absurd both.1 other⟩
      cases impossible

theorem listMatch_plain (some' : mask ≠ []) (plain : '*' ∉ mask) :
    listMatch str mask = true ↔ Glob mask str := by
  obtain ⟨m, mask, rfl⟩ := exists_cons_of_ne_nil some'
  have scan := scanMask_eq (m :: mask) str
  rw [listMatch]
  cases answer : scanMask (m :: mask) str with
  | none => exact absurd (scan.1.mp answer).1 plain
  | some answer' =>
    simp only [answer, Option.some.injEq] at scan
    rw [scan.2]
    simp [plain]

theorem listMatch_first {c : Char} (single : m ≠ '*') (other : ¬(m = '?' ∨ m = c)) :
    listMatch (c :: str) (m :: mask) = false := by
  rw [listMatch, scanMask, if_neg single, if_neg other]

theorem exists_star_split (star : '*' ∈ mask) :
    ∃ post, mask = mask.takeWhile (· ≠ '*') ++ '*' :: post := by
  induction mask with
  | nil => cases star
  | cons m mask ih =>
    by_cases here : m = '*'
    · exact ⟨mask, by rw [here, takeWhile_cons_of_neg (by simp)]; rfl⟩
    · have further := (mem_cons.mp star).resolve_left (Ne.symm here)
      obtain ⟨post, split⟩ := ih further
      refine ⟨post, ?_⟩
      rw [takeWhile_cons_of_pos (by simpa using here), cons_append, ← split]

theorem glob_front (star : '*' ∈ mask) (glob : Glob mask str) :
    Glob (mask.takeWhile (· ≠ '*') ++ ['*']) str := by
  obtain ⟨_, split⟩ := exists_star_split star
  rw [split, glob_append] at glob
  obtain ⟨front, back, rfl, left, _⟩ := glob
  exact (glob_append _ _ _).mpr ⟨front, back, rfl, left, [], nil_suffix, rfl⟩

theorem listMatch_of_glob (mask : Text) : ∀ str, mask ≠ [] → str ≠ [] → Glob mask str →
    listMatch str mask = true := by
  induction mask with
  | nil => exact fun _ some' => absurd rfl some'
  | cons m mask ih =>
    intro str _ named glob
    -- a rest that is empty is replaced by the whole name
    have further : ∀ rest, rest <:+ str → Glob mask rest → mask ≠ [] →
        ∃ rest, rest ≠ [] ∧ rest <:+ str ∧ listMatch rest mask = true := by
      intro rest part inner more
      by_cases empty : rest = []
      · subst empty
        have all : Glob mask str := Matches.of_nil (by simpa using more) inner str
        exact ⟨str, named, suffix_refl _, ih str more named all⟩
      · exact ⟨rest, empty, part, ih rest more empty inner⟩
    by_cases star : m = '*'
    · subst star
      obtain ⟨rest, part, inner⟩ := glob_star.mp glob
      rw [listMatch_star]
      by_cases last : mask = []
      · exact Or.inl last
      · exact Or.inr (further rest part inner last)
    · by_cases more : '*' ∈ mask
      · rw [listMatch_cons star more]
        obtain ⟨c, rest, rfl, accepts, inner⟩ := (glob_cons star).mp glob
        exact ⟨(glob_cons_cons star).mpr ⟨accepts, glob_front more inner⟩,
          further rest (suffix_cons c rest) inner (ne_nil_of_mem more)⟩
      · refine (listMatch_plain (by simp) ?_).mpr glob
        exact fun member => (mem_cons.mp member).elim (fun same => star same.symm) more

theorem Clash.cons (clash : Clash mask) (m : Char) : Clash (m :: mask) := by
  obtain ⟨front, c, stars, d, rest, rfl, more⟩ := clash
  exact ⟨m :: front, c, stars, d, rest, rfl, more⟩

/-- The character in front of a star and the part behind it do not meet. -/
theorem glob_later {pre post : Text} {e a : Char} (single : e ≠ '*')
    (apart : ¬Clash (pre ++ e :: '*' :: post)) (accepts : e = '?' ∨ e = a)
    (glob : Glob post (a :: str)) : Glob post str := by
  refine Matches.tail glob ?_
  intro front item rest split stars matched
  obtain ⟨front', _, rfl, frontItems, tailItems⟩ := map_eq_append_iff.mp split
  obtain ⟨d, rest', rfl, same, _⟩ := map_eq_cons_iff.mp tailItems
  have single' : d ≠ '*' := by
    rintro rfl
    rw [← same] at matched
    exact matched
  rw [← same, maskItem_accepts single'] at matched
  refine apart ⟨pre, e, '*' :: front', d, rest', rfl, by simp, ?_, single, single', ?_⟩
  · intro star member
    rcases mem_cons.mp member with rfl | member
    · rfl
    · refine maskItem_eq_many.mp (stars _ ?_)
      rw [← frontItems]
      exact mem_map_of_mem member
  · rcases accepts with one | here
    · exact Or.inr (Or.inl one)
    · rcases matched with one | there
      · exact Or.inr (Or.inr one)
      · exact Or.inl (here.trans there.symm)

theorem glob_length {pre : Text} (single : '*' ∉ pre) (glob : Glob pre str) :
    str.length = pre.length := by
  have length := Matches.length_eq glob fun many => by
    obtain ⟨_, member, same⟩ := mem_map.mp many
    exact single (maskItem_eq_many.mp same ▸ member)
  rwa [length_map] at length

/-- The part in front of a star at the start of a name, and the mask without its first
character in a rest of it: unless the parts meet, the whole mask matches. -/
theorem glob_of_parts {pre post s : Text} (single : '*' ∉ m :: pre)
    (apart : ¬Clash (m :: pre ++ '*' :: post)) (starts : Glob (m :: pre ++ ['*']) str)
    (part : s <:+ str) (later : Glob (pre ++ '*' :: post) s) :
    Glob (m :: pre ++ '*' :: post) str := by
  obtain ⟨front, back, rfl, left, _⟩ := (glob_append _ _ _).mp starts
  obtain ⟨_, _, rfl, leftInner, right⟩ := (glob_append _ _ _).mp later
  obtain ⟨rest, partRest, globRest⟩ := glob_star.mp right
  have frontLength := glob_length single left
  have innerLength := glob_length (fun star => single (mem_cons_of_mem _ star)) leftInner
  suffices ∃ rest, rest <:+ back ∧ Glob post rest from
    (glob_append _ _ _).mpr ⟨front, back, rfl, left, this⟩
  have whole : rest <:+ front ++ back :=
    (partRest.trans (suffix_append _ _)).trans part
  by_cases short : rest.length ≤ back.length
  · exact ⟨rest, suffix_of_suffix_length_le whole (suffix_append _ _) short, globRest⟩
  -- the rest starts at the last character of the part in front
  have long : rest.length = back.length + 1 := by
    have outer := part.length_le
    have within := partRest.length_le
    rw [length_append, length_append] at outer
    rw [length_cons] at frontLength
    omega
  obtain ⟨start, a, rfl⟩ : ∃ start a, front = start ++ [a] :=
    ⟨_, _, (dropLast_append_getLast (ne_nil_of_length_eq_add_one frontLength)).symm⟩
  obtain ⟨before, e, split⟩ : ∃ before e, m :: pre = before ++ [e] :=
    ⟨_, _, (dropLast_append_getLast (cons_ne_nil m pre)).symm⟩
  rw [split] at left single apart
  rw [append_assoc] at whole apart
  have same : rest = a :: back :=
    (suffix_of_suffix_length_le whole (suffix_append _ _) (by simp [long])).eq_of_length
      (by simp [long])
  have single' : e ≠ '*' := by
    rintro rfl
    exact single (by simp)
  obtain ⟨_, _, parts, _, last⟩ := (glob_append _ _ _).mp left
  obtain ⟨_, none', rfl, accepts, empty⟩ := (glob_cons single').mp last
  cases (matches_nil none').mp empty
  cases (append_inj' parts rfl).2
  rw [same] at globRest
  exact ⟨back, suffix_refl _, glob_later single' apart accepts globRest⟩

theorem glob_of_listMatch (mask : Text) (apart : ¬Clash mask) : ∀ str,
    listMatch str mask = true → Glob mask str := by
  induction mask with
  | nil =>
    intro str matched
    cases str <;> cases matched
  | cons m mask ih =>
    intro str matched
    have inner := ih fun clash => apart (clash.cons m)
    by_cases star : m = '*'
    · subst star
      rcases listMatch_star.mp matched with rfl | ⟨rest, _, part, further⟩
      · exact ⟨[], nil_suffix, rfl⟩
      · exact ⟨rest, part, inner rest further⟩
    · by_cases more : '*' ∈ mask
      · obtain ⟨starts, s, _, part, further⟩ := (listMatch_cons star more).mp matched
        have later := inner s further
        obtain ⟨_, split⟩ := exists_star_split more
        have single : '*' ∉ m :: mask.takeWhile (· ≠ '*') := by
          intro member
          rcases mem_cons.mp member with here | member
          · exact star here.symm
          · have other := mem_takeWhile_imp member
            rw [decide_eq_true_eq] at other
            exact other rfl
        rw [split] at later apart ⊢
        exact glob_of_parts single apart starts part later
      · refine (listMatch_plain (by simp) ?_).mp matched
        exact fun member => (mem_cons.mp member).elim (fun same => star same.symm) more

end Match

def fillMask (mask : Text) : Text :=
  (mask.filter (· ≠ '*')).map fun m => if m = '?' then 'x' else m

section Clash

variable {c d e : Char} {mask front stars rest : Text}

theorem fillMask_cons {m : Char} (single : m ≠ '*') (mask : Text) :
    fillMask (m :: mask) = (if m = '?' then 'x' else m) :: fillMask mask := by
  rw [fillMask, filter_cons_of_pos (by simpa using single), map_cons, fillMask]

theorem accepts_fill (m : Char) : m = '?' ∨ m = if m = '?' then 'x' else m := by
  by_cases one : m = '?'
  · exact Or.inl one
  · exact Or.inr (if_neg one).symm

theorem fillMask_plain (mask : Text) : '*' ∉ fillMask mask ∧ '?' ∉ fillMask mask := by
  constructor
  · intro member
    obtain ⟨m, inside, same⟩ := mem_map.mp member
    have single := of_mem_filter inside
    rw [decide_eq_true_eq] at single
    split at same
    · cases same
    · exact single same
  · intro member
    obtain ⟨m, _, same⟩ := mem_map.mp member
    split at same
    · cases same
    · rename_i other
      exact other same

theorem glob_fillMask (mask : Text) : Glob mask (fillMask mask) := by
  induction mask with
  | nil => rfl
  | cons m mask ih =>
    by_cases star : m = '*'
    · subst star
      exact ⟨fillMask mask, suffix_refl _, ih⟩
    · rw [fillMask_cons star, glob_cons_cons star]
      exact ⟨accepts_fill m, ih⟩

theorem glob_stars (all : ∀ star ∈ stars, star = '*') {name : Text} (glob : Glob mask name) :
    Glob (stars ++ mask) name := by
  induction stars with
  | nil => exact glob
  | cons star stars ih =>
    rw [all star mem_cons_self]
    exact ⟨name, suffix_refl _, ih (forall_mem_cons.mp all).2⟩

/-- A character that both sides of the stars accept stands for both. -/
theorem listMatch_overlap (some' : stars ≠ []) (all : ∀ star ∈ stars, star = '*') (left : c ≠ '*')
    (right : d ≠ '*') (accepts : (c = '?' ∨ c = e) ∧ (d = '?' ∨ d = e)) (front rest : Text) :
    listMatch (fillMask front ++ e :: fillMask rest) (front ++ c :: (stars ++ d :: rest)) = true ∧
      Glob ((front ++ c :: (stars ++ d :: rest)).takeWhile (· ≠ '*') ++ ['*'])
        (fillMask front ++ e :: fillMask rest) := by
  have every : ∀ name, Glob ['*'] name := fun name => ⟨[], nil_suffix, rfl⟩
  obtain ⟨star, more, rfl⟩ := exists_cons_of_ne_nil some'
  obtain rfl := all star mem_cons_self
  induction front with
  | nil =>
    have behind : Glob ('*' :: more ++ d :: rest) (e :: fillMask rest) :=
      glob_stars all ((glob_cons_cons right).mpr ⟨accepts.2, glob_fillMask rest⟩)
    have ahead : Glob (c :: ('*' :: more ++ d :: rest).takeWhile (· ≠ '*') ++ ['*'])
        (e :: fillMask rest) := (glob_cons_cons left).mpr ⟨accepts.1, every _⟩
    refine ⟨(listMatch_cons left mem_cons_self).mpr ⟨ahead, e :: fillMask rest,
      cons_ne_nil _ _, suffix_refl _, ?_⟩, ?_⟩
    · exact listMatch_of_glob _ _ (cons_ne_nil _ _) (cons_ne_nil _ _) behind
    · rw [nil_append, takeWhile_cons_of_pos (by simpa using left)]
      exact ahead
  | cons m front ih =>
    obtain ⟨matched, starts⟩ := ih
    have named : fillMask front ++ e :: fillMask rest ≠ [] := by simp
    by_cases star : m = '*'
    · subst star
      exact ⟨listMatch_star.mpr (Or.inr ⟨_, named, suffix_refl _, matched⟩), every _⟩
    · have ahead : Glob (m :: (front ++ c :: ('*' :: more ++ d :: rest)).takeWhile (· ≠ '*') ++
          ['*']) ((if m = '?' then 'x' else m) :: (fillMask front ++ e :: fillMask rest)) :=
        (glob_cons_cons star).mpr ⟨accepts_fill m, starts⟩
      rw [fillMask_cons star, cons_append, cons_append, takeWhile_cons_of_pos (by simpa using star)]
      exact ⟨(listMatch_cons star (by simp)).mpr ⟨ahead, _, named, suffix_cons _ _, matched⟩, ahead⟩

theorem length_fillMask_le {name : Text} (glob : Glob mask name) :
    (fillMask mask).length ≤ name.length := by
  have bound := Matches.length_le glob
  rw [filter_map, length_map] at bound
  have same : (mask.filter ((fun item => decide (item ≠ Wildcards.Item.many)) ∘ maskItem)) =
      mask.filter (· ≠ '*') := by
    refine filter_congr fun m _ => ?_
    simp [maskItem_eq_many]
  rwa [same, ← length_map (f := fun m => if m = '?' then 'x' else m)] at bound

theorem Clash.star_mem_tail (clash : Clash mask) : '*' ∈ mask.tail := by
  obtain ⟨front, _, _, _, _, rfl, some', all, _⟩ := clash
  obtain ⟨star, _, rfl⟩ := exists_cons_of_ne_nil some'
  rw [all star mem_cons_self]
  cases front <;> simp

end Clash

/-- The names that a mask is answered for are those that match it exactly when no two
characters on the two sides of stars can stand for one character. -/
theorem listMatch_glob_iff (mask : Text) (some' : mask ≠ []) :
    (∀ name, name ≠ [] → '*' ∉ name ∧ '?' ∉ name →
      (listMatch name mask = true ↔ Glob mask name)) ↔ ¬Clash mask := by
  constructor
  · rintro exact' ⟨front, c, stars, d, rest, rfl, more, all, left, right, same⟩
    obtain ⟨e, plain, accepts⟩ : ∃ e, (e ≠ '*' ∧ e ≠ '?') ∧
        (c = '?' ∨ c = e) ∧ (d = '?' ∨ d = e) := by
      by_cases one : c = '?'
      · by_cases one' : d = '?'
        · exact ⟨'x', by decide, Or.inl one, Or.inl one'⟩
        · exact ⟨d, ⟨right, one'⟩, Or.inl one, Or.inr rfl⟩
      · refine ⟨c, ⟨left, one⟩, Or.inr rfl, ?_⟩
        rcases same with rfl | one' | one'
        · exact Or.inr rfl
        · exact absurd one' one
        · exact Or.inl one'
    have matched := (listMatch_overlap more all left right accepts front rest).1
    obtain ⟨noStar, noOne⟩ := fillMask_plain front
    obtain ⟨noStar', noOne'⟩ := fillMask_plain rest
    have glob := (exact' _ (by simp)
      ⟨by simp [noStar, noStar', Ne.symm plain.1], by simp [noOne, noOne', Ne.symm plain.2]⟩).mp
      matched
    have short := length_fillMask_le glob
    have none' : stars.filter (· ≠ '*') = [] :=
      filter_eq_nil_iff.mpr fun star member => by simp [all star member]
    simp only [fillMask, filter_append, filter_cons, none', length_append, length_map] at short
    simp only [ne_eq, left, right, not_false_eq_true, decide_true, ↓reduceIte, nil_append,
      length_cons, length_map] at short
    omega
  · intro apart name named _
    exact ⟨glob_of_listMatch mask apart name, listMatch_of_glob mask name some' named⟩

theorem listMatch_glob_iff_suffix :
    listMatch "main.c".toList "*.c".toList = true ↔ Glob "*.c".toList "main.c".toList :=
  (listMatch_glob_iff "*.c".toList (by decide)).mpr
    (fun clash => absurd clash.star_mem_tail (by decide)) _ (by decide) (by decide)

/-- The mask asks for two letters, and one is accepted. -/
theorem listMatch_accepts_short : listMatch "a".toList "a*a".toList = true ∧
    ¬Glob "a*a".toList "a".toList :=
  ⟨by decide, fun glob => absurd (length_fillMask_le glob) (by decide)⟩

/-- `my_str_compare`. Behind a star the next character is looked for as it is; nothing is tried
again. -/
def myStrCompare : Text → Text → Bool
  | [], dst => dst = [] ∨ dst = ['*']
  | _ :: _, [] => false
  | c :: src, m :: dst =>
    if m = '*' then
      match dst.head? with
      | none => true
      | some d => myStrCompare ((c :: src).dropWhile (· ≠ d)) dst
    else if m = '?' ∨ m = c then myStrCompare src dst
    else false

theorem glob_of_myStrCompare (dst : Text) : ∀ {src : Text}, myStrCompare src dst = true →
    Glob dst src := by
  induction dst with
  | nil =>
    intro src same
    cases src with
    | nil => rfl
    | cons c src => cases same
  | cons m dst ih =>
    intro src same
    cases src with
    | nil =>
      rw [myStrCompare, decide_eq_true_iff] at same
      cases same.resolve_left (cons_ne_nil m dst)
      exact ⟨[], suffix_refl _, rfl⟩
    | cons c src =>
      rw [myStrCompare] at same
      split at same
      · rename_i star
        subst star
        cases dst with
        | nil => exact ⟨[], nil_suffix, rfl⟩
        | cons d dst => exact ⟨_, dropWhile_suffix _, ih same⟩
      · rename_i single
        split at same
        · rename_i accepts
          exact (glob_cons_cons single).mpr ⟨accepts, ih same⟩
        · cases same

theorem myStrCompare_of_glob (dst : Text) (last : '*' ∉ dst.dropLast) : ∀ {src : Text},
    Glob dst src → myStrCompare src dst = true := by
  induction dst with
  | nil =>
    rintro src rfl
    rfl
  | cons m dst ih =>
    intro src glob
    by_cases star : m = '*'
    · subst star
      cases dst with
      | nil => cases src <;> rfl
      | cons d dst => exact absurd mem_cons_self last
    · obtain ⟨_, _, rfl, accepts, inner⟩ := (glob_cons star).mp glob
      rw [myStrCompare, if_neg star, if_pos accepts]
      refine ih (fun member => last ?_) inner
      cases dst with
      | nil => cases member
      | cons d dst => exact mem_cons_of_mem m member

/-- `my_str_compare` accepts only what the pattern matches, and all of it if the only star is
at the end of the pattern. -/
theorem myStrCompare_glob (src dst : Text) :
    (myStrCompare src dst = true → Glob dst src) ∧
      ('*' ∉ dst.dropLast → Glob dst src → myStrCompare src dst = true) :=
  ⟨glob_of_myStrCompare dst, fun last => myStrCompare_of_glob dst last⟩

example : myStrCompare "10.0.0.7".toList "10.?.0.*".toList = true := by decide

end Wzdftpd
