import Mathlib.Data.List.Induction
import Wzdftpd.LexicalPath
import Wzdftpd.TextBuffer

/- `stripdir` of wzd_vfs.c. The path is copied into another buffer; the dots in front of a
separator are counted, and one or two of them take back what was copied since the separator
before, or one more. -/
namespace Wzdftpd

open SegmentWalk LexicalPath TextBuffer List Option

/-- The buffer, the positions `in` and `out`, and the dots read in a row. -/
structure Stripping where
  buf : List Char
  pos : Nat
  out : Nat
  ldots : Nat

namespace Stripping

/-- `while (*(++in) == '/') ; in--;` -/
def lastSlash (dir : List Char) (pos : Nat) : Nat :=
  pos + ((dir.drop (pos + 1)).takeWhile (· = '/')).length

/-- `while (ldots > 0 && --out > buf) if (*out == '/') ldots--;` -/
def goBack (buf : List Char) : Nat → Nat → Option Nat
  | 0, ldots => if ldots = 0 then some 0 else none
  | out + 1, ldots =>
    if ldots = 0 then some (out + 1)
    else if out = 0 then some 0
    else buf[out]?.bind fun c => goBack buf out (if c = '/' then ldots - 1 else ldots)

/-- At the end of the path: `if (out-ldots<=dir || *(out-ldots-1) != '/') ldots = 0;` -/
def realDots (below : Bool) (buf : List Char) (out ldots : Nat) : Option Nat :=
  if below then some 0
  else if out ≤ ldots then none
  else buf[out - ldots - 1]?.map fun c => if c ≠ '/' then 0 else ldots

/-- At a separator, or at the end of the path: the buffer and `out` once the dots have been
taken back. -/
def undo (below : Bool) (s : Stripping) (c : Char) : Option (List Char × Nat) :=
  if s.ldots = 1 ∨ s.ldots = 2 then
    (if c = '\x00' then realDots below s.buf s.out s.ldots else some s.ldots).bind fun ldots =>
      (goBack s.buf s.out ldots).bind fun out =>
        (store s.buf (out + 1) '\x00').map fun buf => (buf, out)
  else some (s.buf, s.out)

def turn (dir : List Char) (below : Bool) (s : Stripping) : Option (Bool × Stripping) :=
  dir[s.pos]?.bind fun c =>
    (store s.buf s.out c).bind fun buf =>
      if c = '/' ∨ c = '\x00' then
        (undo below ⟨buf, s.pos, s.out, s.ldots⟩ c).map fun undone =>
          (decide (c = '\x00'),
            ⟨undone.1, if c = '/' then lastSlash dir s.pos + 1 else s.pos, undone.2 + 1, 0⟩)
      else some (false, ⟨buf, s.pos + 1, s.out + 1, if c = '.' then s.ldots + 1 else 0⟩)

/-- `while (out < last)`, and whether the end of the path was reached. -/
def loop (dir : List Char) (below : Bool) (last : Nat) : Nat → Stripping →
    Option (Bool × Stripping)
  | 0, _ => none
  | turns + 1, s =>
    if s.out < last then
      (turn dir below s).bind fun next =>
        if next.1 then some next else loop dir below last turns next.2
    else dir[s.pos]?.map fun c => (decide (c = '\x00'), s)

/-- `while (--out != buf && (*out == '/' || !*out)) *out=0;` -/
def trim : Nat → List Char → Option (List Char)
  | 0, _ => none
  | out + 1, buf =>
    if out = 0 then some buf
    else
      buf[out]?.bind fun c =>
        if c = '/' ∨ c = '\x00' then (store buf out '\x00').bind (trim out) else some buf

/-- Where the loop starts: behind the working directory, for a path that is not absolute. -/
def start (cwd : Option (List Char)) (dir buf : List Char) : Option (Option Stripping) :=
  if dir.head? = some '/' then some (some ⟨buf, 0, 0, 0⟩)
  else
    match cwd with
    | none => some none
    | some here =>
      (place buf 0 (here ++ ['\x00'])).bind fun buf =>
        if here.getLast? = some '/' then some (some ⟨buf, 0, here.length, 0⟩)
        else (store buf here.length '/').map fun buf => some ⟨buf, 0, here.length + 1, 0⟩

end Stripping

open Stripping in
/-- `stripdir`: whether it returns its buffer, and what that buffer holds. -/
def stripdir (below : Bool) (cwd : Option (List Char)) (dir buf : List Char) (maxlen : Nat) :
    Option (Bool × List Char) :=
  (store buf 0 '\x00').bind fun buf =>
    (start cwd dir buf).bind fun started =>
      match started with
      | none => some (false, buf)
      | some s =>
        (loop (dir ++ ['\x00']) below maxlen (dir.length + 1) s).bind fun ended =>
          if ended.1 then (trim ended.2.out ended.2.buf).map fun buf => (true, buf)
          else some (false, ended.2.buf)

def endDots (component : List Char) : Nat := (component.reverse.takeWhile (· = '.')).length

/-- What `stripdir` makes of a component in front of a separator. -/
def stripSeg (component : List Char) : Seg (List Char) :=
  if component = [] ∨ endDots component = 1 then .stay
  else if endDots component = 2 then .up
  else .down component

/-- What it makes of the last component. -/
def lastSeg (below : Bool) (component : List Char) : Seg (List Char) :=
  if component ≠ [] ∧ below then .down component else segOf component

def stripSegs (below : Bool) : List (List Char) → List (Seg (List Char))
  | [] => []
  | [component] => [lastSeg below component]
  | component :: next :: rest => stripSeg component :: stripSegs below (next :: rest)

variable {component : List Char}

section Dots

theorem stripSeg_eq_down {name : List Char} (enters : stripSeg component = .down name) :
    name = component := by
  unfold stripSeg at enters
  split at enters
  · cases enters
  · split at enters
    · cases enters
    · cases enters
      rfl

theorem endDots_concat (component : List Char) (c : Char) :
    endDots (component ++ [c]) = if c = '.' then endDots component + 1 else 0 := by
  rw [endDots, reverse_append]
  by_cases dot : c = '.'
  · simp only [dot]
    rfl
  · simp [dot]

theorem exists_body (component : List Char) :
    ∃ body, component = body ++ replicate (endDots component) '.' := by
  induction component using reverseRecOn with
  | nil => exact ⟨[], rfl⟩
  | append_singleton component c ih =>
    obtain ⟨body, same⟩ := ih
    rw [endDots_concat]
    by_cases dot : c = '.'
    · exact ⟨body, by rw [if_pos dot, dot, replicate_succ', ← append_assoc, ← same]⟩
    · exact ⟨component ++ [c], by simp [dot]⟩

theorem stripSeg_of_dots (some' : component ≠ [])
    (dots : endDots component = 1 ∨ endDots component = 2) :
    stripSeg component = .stay ∨ stripSeg component = .up := by
  unfold stripSeg
  rcases dots with one | two
  · exact Or.inl (if_pos (Or.inr one))
  · exact Or.inr (by rw [if_neg (by simp [some', two]), if_pos two])

end Dots

namespace Stripping

section Back

variable {buf front component : List Char} {st : List (List Char)}

/-- Going back over a component to the separator in front of it. -/
theorem goBack_component (ldots : Nat) (noSlash : '/' ∉ component)
    (start : front ++ '/' :: component <+: buf) :
    goBack buf (front ++ '/' :: component).length (ldots + 1) =
      if front.length = 0 then some 0 else goBack buf front.length ldots := by
  induction component using reverseRecOn with
  | nil => simp [goBack, getElem?_behind start]
  | append_singleton component c ih =>
    have other : c ≠ '/' := fun slash => noSlash (by simp [slash])
    rw [← cons_append, ← append_assoc] at start ⊢
    rw [length_append, length_singleton, goBack, if_neg (by omega), if_neg (by simp),
      getElem?_behind start, bind_some, if_neg other]
    exact ih (fun slash => noSlash (by simp [slash])) ((prefix_append _ _).trans start)

theorem goBack_one (noSlash : '/' ∉ component) (start : rendered st ++ '/' :: component <+: buf) :
    goBack buf (rendered st ++ '/' :: component).length 1 = some (rendered st).length := by
  rw [goBack_component 0 noSlash start]
  cases (rendered st).length <;> rfl

theorem goBack_two (noSlash : '/' ∉ component) (names : ∀ name ∈ st, '/' ∉ name)
    (start : rendered st ++ '/' :: component <+: buf) :
    goBack buf (rendered st ++ '/' :: component).length 2 = some (rendered st.dropLast).length := by
  rw [goBack_component 1 noSlash start]
  rcases eq_nil_or_concat st with rfl | ⟨front, name, rfl⟩
  · rfl
  rw [concat_eq_append, rendered_concat] at *
  rw [if_neg (by simp), goBack_one (names name (by simp)) ((prefix_append _ _).trans start),
    dropLast_concat]

end Back

/-- The names that were kept and a part of the next component stand in the buffer. -/
structure Copied (s : Stripping) (st : List (List Char)) (component : List Char) : Prop where
  written : rendered st ++ '/' :: component <+: s.buf
  out : s.out = (rendered st ++ '/' :: component).length
  ldots : s.ldots = endDots component

section Turns

variable {dir component : List Char} {below : Bool} {s : Stripping} {st : List (List Char)}

theorem turn_of_store {c : Char} (here : dir[s.pos]? = some c) (room : s.out < s.buf.length) :
    turn dir below s =
      if c = '/' ∨ c = '\x00' then
        (undo below ⟨s.buf.set s.out c, s.pos, s.out, s.ldots⟩ c).map fun undone =>
          (decide (c = '\x00'),
            ⟨undone.1, if c = '/' then lastSlash dir s.pos + 1 else s.pos, undone.2 + 1, 0⟩)
      else
        some (false, ⟨s.buf.set s.out c, s.pos + 1, s.out + 1,
          if c = '.' then s.ldots + 1 else 0⟩) := by
  simp [turn, here, store_of_lt room]

theorem Copied.set (copied : Copied s st component) (room : s.out < s.buf.length) (c : Char) :
    rendered st ++ '/' :: component ++ [c] <+: s.buf.set s.out c ∧
      Copied ⟨s.buf.set s.out c, s.pos, s.out, s.ldots⟩ st component := by
  have more : rendered st ++ '/' :: component ++ [c] <+: s.buf.set s.out c := by
    rw [copied.out] at room ⊢
    exact prefix_set copied.written room c
  exact ⟨more, (prefix_append _ _).trans more, copied.out, copied.ldots⟩

theorem Copied.char {c : Char} (below : Bool) (copied : Copied s st component)
    (here : dir[s.pos]? = some c) (name : c ≠ '/' ∧ c ≠ '\x00') (room : s.out < s.buf.length) :
    ∃ next, turn dir below s = some (false, next) ∧ Copied next st (component ++ [c]) ∧
      next.pos = s.pos + 1 ∧ next.buf.length = s.buf.length := by
  rw [turn_of_store here room, if_neg (not_or.mpr name)]
  refine ⟨_, rfl, ⟨?_, ?_, ?_⟩, rfl, length_set⟩
  · simpa using (copied.set room c).1
  · simp [copied.out, Nat.add_assoc]
  · rw [endDots_concat, copied.ldots]

theorem Copied.goBack (copied : Copied s st component) (noSlash : '/' ∉ component)
    (names : ∀ name ∈ st, '/' ∉ name) (some' : component ≠ [])
    (dots : s.ldots = 1 ∨ s.ldots = 2) :
    Stripping.goBack s.buf s.out s.ldots =
      some (rendered (move st (stripSeg component))).length := by
  rw [copied.out, copied.ldots] at *
  unfold stripSeg
  rcases dots with one | two
  · rw [one, if_pos (Or.inr rfl), goBack_one noSlash copied.written]
    rfl
  · rw [two, if_neg (not_or.mpr ⟨some', by decide⟩), goBack_two noSlash names copied.written]
    rfl

theorem move_closed (st : List (List Char)) (component : List Char) {seg : Seg (List Char)}
    (lower : seg = .stay ∨ seg = .up) :
    rendered (move st seg) ++ ['/'] <+: rendered st ++ '/' :: component := by
  rcases lower with rfl | rfl
  · exact ⟨component, by simp [move]⟩
  · rcases eq_nil_or_concat st with rfl | ⟨front, name, rfl⟩
    · exact ⟨component, by simp [move]⟩
    · exact ⟨name ++ '/' :: component, by simp [move, rendered_append]⟩

/-- Dots that count are taken back, and the terminator stands behind the separator. -/
theorem Copied.undo_dots {c : Char} (copied : Copied s st component) (noSlash : '/' ∉ component)
    (names : ∀ name ∈ st, '/' ∉ name) (some' : component ≠ []) (room : s.out < s.buf.length)
    (dots : s.ldots = 1 ∨ s.ldots = 2)
    (counted : (if c = '\x00' then Stripping.realDots below s.buf s.out s.ldots
      else some s.ldots) = some s.ldots) :
    ∃ buf, undo below s c = some (buf, (rendered (move st (stripSeg component))).length) ∧
      rendered (move st (stripSeg component)) ++ ['/'] ++ ['\x00'] <+: buf ∧
      buf.length = s.buf.length := by
  have kept := move_closed st component (stripSeg_of_dots some' (copied.ldots ▸ dots))
  have low := kept.length_le.trans_lt (copied.out ▸ room)
  refine ⟨_, ?_, prefix_set (kept.trans copied.written) low _, length_set⟩
  rw [length_append, length_singleton] at low ⊢
  simp [undo, dots, counted, copied.goBack noSlash names some' dots, store_of_lt low]

theorem Copied.slash (below : Bool) (copied : Copied s st component) (here : dir[s.pos]? = some '/')
    (noSlash : '/' ∉ component) (names : ∀ name ∈ st, '/' ∉ name) (some' : component ≠ [])
    (room : s.out + 1 < s.buf.length) :
    ∃ next, turn dir below s = some (false, next) ∧
      Copied next (move st (stripSeg component)) [] ∧ next.pos = lastSlash dir s.pos + 1 ∧
      next.buf.length = s.buf.length := by
  have inside : s.out < s.buf.length := by omega
  obtain ⟨_, again⟩ := copied.set inside '/'
  rw [turn_of_store here inside]
  by_cases dots : s.ldots = 1 ∨ s.ldots = 2
  · obtain ⟨_, undone, before, length⟩ := again.undo_dots (c := '/') noSlash names some'
      (length_set.symm ▸ inside) dots (if_neg (by decide))
    rw [undone]
    exact ⟨_, rfl, ⟨(prefix_append _ _).trans before, by simp, rfl⟩, rfl, length.trans length_set⟩
  · rw [undo, if_neg dots]
    have seg : stripSeg component = .down component := by
      rw [copied.ldots, not_or] at dots
      rw [stripSeg, if_neg (not_or.mpr ⟨some', dots.1⟩), if_neg dots.2]
    rw [seg]
    refine ⟨_, rfl, ⟨?_, ?_, rfl⟩, rfl, length_set⟩
    · change rendered (st ++ [component]) ++ ['/'] <+: _
      rwa [rendered_concat]
    · change s.out + 1 = (rendered (st ++ [component]) ++ ['/']).length
      simp [copied.out, rendered_concat, Nat.add_assoc]

end Turns

/-- Names that a path can be made of. -/
def Names (st : List (List Char)) : Prop :=
  ∀ name ∈ st, name ≠ [] ∧ '/' ∉ name ∧ '\x00' ∉ name

theorem Names.move {st : List (List Char)} {seg : Seg (List Char)} (names : Names st)
    (name : component ≠ [] ∧ '/' ∉ component ∧ '\x00' ∉ component)
    (known : ∀ other, seg = .down other → other = component) : Names (move st seg) := by
  cases seg with
  | stay => exact names
  | up => exact fun other member => names other (dropLast_subset st member)
  | down other =>
    intro each member
    rcases mem_append.mp member with member | member
    · exact names each member
    · rw [mem_singleton.mp member, known other rfl]
      exact name

theorem Names.rendered {st : List (List Char)} (names : Names st) :
    '\x00' ∉ rendered st ∧ (st ≠ [] → ∃ front c, rendered st = front ++ [c] ∧ c ≠ '/' ∧
      c ≠ '\x00') := by
  constructor
  · intro null
    obtain ⟨name, member, inside⟩ := mem_flatMap.mp null
    rcases mem_cons.mp inside with impossible | inside
    · cases impossible
    · exact (names name member).2.2 inside
  · intro some'
    obtain ⟨front, last, rfl⟩ : ∃ front last, st = front ++ [last] :=
      ⟨_, _, (dropLast_append_getLast some').symm⟩
    obtain ⟨named, noSlash, noNull⟩ := names last (by simp)
    obtain ⟨start, c, rfl⟩ : ∃ start c, last = start ++ [c] :=
      ⟨_, _, (dropLast_append_getLast named).symm⟩
    refine ⟨LexicalPath.rendered front ++ '/' :: start, c, by simp [rendered_append], ?_, ?_⟩
    · exact fun slash => noSlash (by simp [slash])
    · exact fun null => noNull (by simp [null])

section Trim

variable {buf : List Char} {st : List (List Char)}

/-- The text in front of a separator or a terminator, once that is cleared. -/
theorem trim_text {front : List Char} {c d : Char} (start : front ++ [c] ++ [d] <+: buf)
    (cleared : d = '/' ∨ d = '\x00') (name : c ≠ '/' ∧ c ≠ '\x00') (plain : '\x00' ∉ front ++ [c]) :
    ∃ after, trim ((front ++ [c]).length + 1) buf = some after ∧ text after = front ++ [c] ∧
      after.length = buf.length := by
  obtain ⟨behind, rfl⟩ := start
  refine ⟨front ++ [c] ++ '\x00' :: behind, ?_, text_append plain behind, by simp⟩
  have stop : trim (front ++ [c]).length (front ++ [c] ++ '\x00' :: behind) =
      some (front ++ [c] ++ '\x00' :: behind) := by
    rw [length_append, length_singleton, trim]
    split
    · rfl
    · simp [not_or.mpr name]
  have stored : store (front ++ [c] ++ [d] ++ behind) (front ++ [c]).length '\x00' =
      some (front ++ [c] ++ '\x00' :: behind) := by
    simp [store]
  rw [trim, if_neg (by simp), getElem?_behind (prefix_append _ _), bind_some, if_pos cleared,
    stored, bind_some, stop]

theorem trim_kept (names : Names st) (some' : st ≠ []) {d : Char}
    (start : rendered st ++ [d] <+: buf) (cleared : d = '/' ∨ d = '\x00') :
    ∃ after, trim ((rendered st).length + 1) buf = some after ∧ text after = '/' :: joined st ∧
      after.length = buf.length := by
  obtain ⟨plain, ends⟩ := names.rendered
  obtain ⟨_, _, shape, name⟩ := ends some'
  rw [← rendered_eq some']
  rw [shape] at start plain ⊢
  exact trim_text start cleared name plain

theorem trim_opened (names : Names st) (start : rendered st ++ ['/'] ++ ['\x00'] <+: buf) :
    ∃ after, trim ((rendered st).length + 1) buf = some after ∧ text after = '/' :: joined st ∧
      after.length = buf.length := by
  by_cases empty : st = []
  · subst empty
    obtain ⟨_, rfl⟩ := start
    exact ⟨_, rfl, rfl, rfl⟩
  · exact trim_kept names empty ((prefix_append _ _).trans start) (Or.inl rfl)

end Trim

section Ends

variable {dir component : List Char} {below : Bool} {s : Stripping} {st : List (List Char)}

/-- At the end only a component of nothing but dots counts. -/
theorem Copied.realDots (copied : Copied s st component) (noSlash : '/' ∉ component) :
    Stripping.realDots below s.buf s.out s.ldots =
      some (if below = false ∧ component = replicate s.ldots '.' then s.ldots else 0) := by
  cases below with
  | true => simp only [Stripping.realDots, if_true, Bool.true_eq_false, false_and, if_false]
  | false =>
    obtain ⟨body, same⟩ := exists_body component
    rw [← copied.ldots] at same
    obtain ⟨_, whole⟩ := copied.written
    have length := congrArg length same
    have out := copied.out
    simp only [length_append, length_cons, length_replicate] at length out
    have index : s.out - s.ldots - 1 = (rendered st).length + body.length := by omega
    have low : ¬s.out ≤ s.ldots := by omega
    simp only [Stripping.realDots, if_neg low, true_and, index]
    rcases eq_nil_or_concat body with rfl | ⟨front, c, rfl⟩
    · rw [nil_append] at same
      simp [← whole, ← same]
    rw [concat_eq_append] at same length
    have other : c ≠ '/' := fun slash => noSlash (by rw [same, slash]; simp)
    have mixed : component ≠ replicate s.ldots '.' := by
      intro all
      rw [all, length_replicate, length_append, length_singleton] at length
      omega
    rw [if_neg mixed, ← whole, same]
    simp [other]

/-- Only whole components of one or two dots move at the end, as they do in the middle. -/
theorem lastSeg_eq (below : Bool) (some' : component ≠ []) :
    lastSeg below component =
      if (endDots component = 1 ∨ endDots component = 2) ∧ below = false ∧
        component = replicate (endDots component) '.' then stripSeg component
      else .down component := by
  cases below with
  | true =>
    rw [lastSeg, if_pos ⟨some', rfl⟩, if_neg]
    rintro ⟨_, impossible, _⟩
    cases impossible
  | false =>
    rw [lastSeg, if_neg fun both => Bool.false_ne_true both.2]
    split
    · rename_i dots
      obtain ⟨one | two, _, whole⟩ := dots
      · rw [one] at whole
        rw [whole]
        rfl
      · rw [two] at whole
        rw [whole]
        rfl
    · rename_i other
      refine (segOf_down_iff component).mpr ⟨some', fun dot => other ?_, fun dots => other ?_⟩
      · rw [dot]
        exact ⟨Or.inl rfl, rfl, rfl⟩
      · rw [dots]
        exact ⟨Or.inr rfl, rfl, rfl⟩

theorem turn_null (here : dir[s.pos]? = some '\x00') (room : s.out < s.buf.length)
    {buf : List Char} {out : Nat}
    (undone : undo below ⟨s.buf.set s.out '\x00', s.pos, s.out, s.ldots⟩ '\x00' = some (buf, out)) :
    turn dir below s = some (true, ⟨buf, s.pos, out + 1, 0⟩) := by
  rw [turn_of_store here room, undone]
  rfl

/-- Dots that do not count take nothing back. -/
theorem Copied.undo_name (copied : Copied s st component) (noSlash : '/' ∉ component)
    (ended : rendered st ++ '/' :: component ++ ['\x00'] <+: s.buf)
    (room : s.out + 1 < s.buf.length)
    (name : ¬((s.ldots = 1 ∨ s.ldots = 2) ∧ below = false ∧
      component = replicate s.ldots '.')) :
    ∃ buf, undo below s '\x00' = some (buf, s.out) ∧
      rendered st ++ '/' :: component ++ ['\x00'] <+: buf ∧ buf.length = s.buf.length := by
  by_cases dots : s.ldots = 1 ∨ s.ldots = 2
  · have back : Stripping.goBack s.buf s.out 0 = some s.out := by
      cases s.out <;> rfl
    have out : s.out + 1 = (rendered st ++ '/' :: component ++ ['\x00']).length := by
      simp [copied.out, Nat.add_assoc]
    refine ⟨s.buf.set (s.out + 1) '\x00', ?_, ?_, length_set⟩
    · rw [undo, if_pos dots, if_pos rfl, copied.realDots noSlash,
        if_neg fun both => name ⟨dots, both⟩, bind_some, back, bind_some, store_of_lt room]
      rfl
    · rw [out] at room ⊢
      exact (prefix_append _ _).trans (prefix_set ended room _)
  · exact ⟨s.buf, by rw [undo, if_neg dots], ended, rfl⟩

/-- What the last turn leaves, and the separators behind it cleared. -/
theorem Copied.ends (below : Bool) (copied : Copied s st component)
    (here : dir[s.pos]? = some '\x00') (names : Names st)
    (name : '/' ∉ component ∧ '\x00' ∉ component) (room : s.out + 1 < s.buf.length) :
    ∃ next after, turn dir below s = some (true, next) ∧ trim next.out next.buf = some after ∧
      text after = '/' :: joined (move st (lastSeg below component)) ∧
      after.length = s.buf.length := by
  have inside : s.out < s.buf.length := by omega
  have size : (s.buf.set s.out '\x00').length = s.buf.length := length_set
  obtain ⟨ended, again⟩ := copied.set inside '\x00'
  by_cases empty : component = []
  · subst empty
    have out : s.out = (rendered st).length + 1 := by simpa using copied.out
    have idle : ¬(s.ldots = 1 ∨ s.ldots = 2) := by
      rw [copied.ldots]
      decide
    have undone : undo below ⟨s.buf.set s.out '\x00', s.pos, s.out, s.ldots⟩ '\x00' =
        some (s.buf.set s.out '\x00', s.out) := if_neg idle
    obtain ⟨after, trimmed, same, length⟩ := trim_opened names ended
    rw [← out] at trimmed
    refine ⟨_, after, turn_null here inside undone, ?_, same, length.trans size⟩
    rw [trim, if_neg (by omega), getElem?_set_self inside, bind_some, if_pos (Or.inr rfl),
      store_of_lt (size ▸ inside), bind_some, set_set, trimmed]
  rw [lastSeg_eq below empty, ← copied.ldots]
  split
  · rename_i real
    obtain ⟨dots, rfl, whole⟩ := real
    have counted := (again.realDots name.1).trans (congrArg some (if_pos ⟨rfl, whole⟩))
    obtain ⟨buf, undone, before, length⟩ :=
      again.undo_dots name.1 (fun name member => (names name member).2.1) empty
        (size ▸ inside) dots ((if_pos rfl).trans counted)
    have moved : Names (move st (stripSeg component)) :=
      names.move ⟨empty, name⟩ fun other down => stripSeg_eq_down down
    obtain ⟨after, trimmed, same, size'⟩ := trim_opened moved before
    exact ⟨_, after, turn_null here inside undone, trimmed, same, size'.trans (length.trans size)⟩
  · rename_i mixed
    obtain ⟨buf, undone, before, length⟩ := again.undo_name name.1 ended (size ▸ room) mixed
    have more : Names (st ++ [component]) := names.move ⟨empty, name⟩
      fun other (down : Seg.down component = .down other) => (Seg.down.inj down).symm
    rw [← rendered_concat] at before
    obtain ⟨after, trimmed, same, size'⟩ := trim_kept more (by simp) before (Or.inr rfl)
    rw [rendered_concat, ← copied.out] at trimmed
    exact ⟨_, after, turn_null here inside undone, trimmed, same, size'.trans (length.trans size)⟩

end Ends

section Run

variable {dir : List Char} {below : Bool}

theorem stripSegs_cons (component : List Char) {rest : List (List Char)} (more : rest ≠ []) :
    stripSegs below (component :: rest) = stripSeg component :: stripSegs below rest := by
  obtain ⟨_, rest, rfl⟩ := exists_cons_of_ne_nil more
  rfl

theorem splitOn_component (noSlash : '/' ∉ component) (rest : List Char) :
    (component ++ '/' :: rest).splitOn '/' = component :: rest.splitOn '/' := by
  rw [splitOn_append_cons_self, splitOn_eq_singleton noSlash, singleton_append]

theorem splitOn_slash (rest : List Char) : ('/' :: rest).splitOn '/' = [] :: rest.splitOn '/' :=
  splitOn_component not_mem_nil rest

theorem walk_skip (st : List (List Char)) (rest : List Char) :
    walk st (stripSegs below ((rest.dropWhile (· = '/')).splitOn '/')) =
      walk st (stripSegs below (rest.splitOn '/')) := by
  induction rest with
  | nil => rfl
  | cons c rest ih =>
    by_cases slash : c = '/'
    · rw [slash, dropWhile_cons_of_pos (by decide), ih, splitOn_slash,
        stripSegs_cons _ (splitOn_ne_nil '/' rest)]
      rfl
    · rw [dropWhile_cons_of_neg (by simpa using slash)]

theorem rendered_move_le (st : List (List Char)) {seg : Seg (List Char)}
    (known : ∀ other, seg = .down other → other = component) :
    (rendered (move st seg)).length ≤ (rendered st ++ '/' :: component).length := by
  cases seg with
  | down name =>
    change (rendered (st ++ [name])).length ≤ _
    rw [known name rfl, rendered_concat]
  | stay | up => exact ((prefix_append _ _).trans (move_closed _ component (by simp))).length_le

theorem drop_lastSlash (pos : Nat) {rest : List Char}
    (ahead : dir.drop pos = '/' :: rest ++ ['\x00']) :
    dir.drop (lastSlash dir pos + 1) = rest.dropWhile (· = '/') ++ ['\x00'] := by
  have behind : dir.drop (pos + 1) = rest ++ ['\x00'] := by
    rw [← drop_drop, ahead]
    rfl
  have shift : lastSlash dir pos + 1 =
      pos + 1 + ((rest ++ ['\x00']).takeWhile (· = '/')).length := by
    rw [lastSlash, behind]
    omega
  have whole : (rest ++ ['\x00']).takeWhile (· = '/') ++ (rest ++ ['\x00']).dropWhile (· = '/') =
      rest ++ ['\x00'] := takeWhile_append_dropWhile
  rw [shift, ← drop_drop, behind]
  nth_rewrite 2 [← whole]
  rw [drop_left, dropWhile_append]
  split
  · rename_i none'
    rw [isEmpty_iff.mp none']
    rfl
  · rfl

theorem head?_skip (rest : List Char) : (rest.dropWhile (· = '/')).head? ≠ some '/' := by
  intro slash
  have other := head?_dropWhile_not (· = '/') rest
  rw [slash] at other
  cases other

/-- The loop from a state in which a part of the path has been read. -/
theorem loop_ends (below : Bool) (last turns : Nat) : ∀ {s : Stripping} {st : List (List Char)}
    {component rest : List Char}, Copied s st component → Names st →
    '/' ∉ component ∧ '\x00' ∉ component → dir.drop s.pos = rest ++ ['\x00'] →
    '\x00' ∉ rest → (component = [] → rest.head? ≠ some '/') → rest.length < turns →
    s.out + rest.length < last → s.out + rest.length + 1 < s.buf.length →
    ∃ ended after, loop dir below last turns s = some (true, ended) ∧
      trim ended.out ended.buf = some after ∧
      text after = '/' :: joined (walk st (stripSegs below ((component ++ rest).splitOn '/'))) ∧
      after.length = s.buf.length := by
  induction turns with
  | zero =>
    intro s st component rest _ _ _ _ _ _ short _ _
    exact absurd short (Nat.not_lt_zero _)
  | succ turns ih =>
    intro s st component rest copied names name ahead clean opened short low room
    rw [loop, if_pos (by omega)]
    have here : dir[s.pos]? = (rest ++ ['\x00']).head? := by
      simp [← ahead]
    cases rest with
    | nil =>
      obtain ⟨next, after, turned, trimmed, same, length⟩ :=
        copied.ends below here names name (by simpa using room)
      refine ⟨next, after, by rw [turned]; rfl, trimmed, ?_, length⟩
      rw [append_nil, splitOn_eq_singleton name.1, same]
      rfl
    | cons c rest =>
      rw [length_cons] at short low room
      by_cases slash : c = '/'
      · subst slash
        have some' : component ≠ [] := fun empty => opened empty rfl
        obtain ⟨next, turned, copied', pos, length⟩ :=
          copied.slash below here name.1 (fun each member => (names each member).2.1)
            some' (by omega)
        have ahead' := drop_lastSlash _ ahead
        rw [← pos] at ahead'
        have shorter : (rest.dropWhile (· = '/')).length ≤ rest.length :=
          (dropWhile_suffix _).length_le
        have out : next.out ≤ s.out + 1 := by
          have bound := rendered_move_le st fun _ (down : stripSeg component = .down _) =>
            stripSeg_eq_down down
          rw [copied'.out, copied.out, length_append]
          exact Nat.add_le_add_right bound 1
        obtain ⟨ended, after, ran, trimmed, same, length'⟩ := ih copied'
          (names.move ⟨some', name⟩ fun _ down => stripSeg_eq_down down)
          ⟨not_mem_nil, not_mem_nil⟩ ahead'
          (fun null => clean (mem_cons_of_mem _ ((dropWhile_sublist _).mem null)))
          (fun _ => head?_skip rest) (by omega) (by omega) (by omega)
        refine ⟨ended, after, by rw [turned]; exact ran, trimmed, ?_, length'.trans length⟩
        rw [same, nil_append, walk_skip, splitOn_component name.1,
          stripSegs_cons _ (splitOn_ne_nil '/' rest), walk_cons]
      · have null : c ≠ '\x00' := fun null => clean (null ▸ mem_cons_self)
        obtain ⟨next, turned, copied', pos, length⟩ :=
          copied.char below here ⟨slash, null⟩ (by omega)
        have ahead' : dir.drop next.pos = rest ++ ['\x00'] := by
          rw [pos, ← drop_drop, ahead]
          rfl
        have out : next.out = s.out + 1 := by
          simp [copied'.out, copied.out, Nat.add_assoc]
        obtain ⟨ended, after, ran, trimmed, same, length'⟩ := ih copied' names
          ⟨by simp [name.1, Ne.symm slash], by simp [name.2, Ne.symm null]⟩ ahead'
          (fun null => clean (mem_cons_of_mem _ null)) (by simp) (by omega) (by omega)
          (by omega)
        refine ⟨ended, after, by rw [turned]; exact ran, trimmed, ?_, length'.trans length⟩
        simp [same]

end Run

end Stripping

section Components

variable {below : Bool} {component name last rest : List Char} {front : List (List Char)}

theorem stripSegs_concat : stripSegs below (front ++ [last]) =
    front.map stripSeg ++ [lastSeg below last] := by
  induction front with
  | nil => rfl
  | cons first front ih =>
    rw [cons_append, Stripping.stripSegs_cons _ (by simp), ih]
    rfl

theorem walk_stripSegs_concat : walk [] (stripSegs below (front ++ [last])) =
    move (walk [] (front.map stripSeg)) (lastSeg below last) := by
  rw [stripSegs_concat, walk_append]
  rfl

theorem lastSeg_eq_down (enters : lastSeg below component = .down name) : name = component := by
  unfold lastSeg at enters
  split at enters
  · exact (Seg.down.inj enters).symm
  · exact segOf_eq_down enters

theorem segOf_of_stripSeg (kept : stripSeg component = .down component) :
    segOf component = .down component := by
  refine (segOf_down_iff component).mpr ⟨?_, ?_, ?_⟩ <;> rintro rfl <;> cases kept

theorem lastSeg_of_segOf (kept : segOf component = .down component) :
    lastSeg below component = .down component := by
  unfold lastSeg
  split
  · rfl
  · exact kept

theorem stripSeg_of_mem (member : name ∈ walk [] (front.map stripSeg)) :
    stripSeg name = .down name ∧ name ∈ front := by
  rcases mem_walk_map stripSeg front member with none' | ⟨component, inside, enters⟩
  · cases none'
  · have same := stripSeg_eq_down enters
    rw [same] at enters ⊢
    exact ⟨enters, inside⟩

theorem rendered_walk_le (below : Bool) (components : List (List Char)) : ∀ st : List (List Char),
    (rendered (walk st (stripSegs below components))).length ≤
      (rendered st).length + (rendered components).length := by
  induction components with
  | nil => exact fun st => Nat.le_refl _
  | cons first components ih =>
    intro st
    rw [rendered_cons, length_cons, length_append]
    by_cases more : components = []
    · subst more
      have bound := Stripping.rendered_move_le st
        fun _ (down : lastSeg below first = .down _) => lastSeg_eq_down down
      rw [length_append, length_cons] at bound
      change (rendered (move st (lastSeg below first))).length ≤ _
      omega
    · have bound := Stripping.rendered_move_le st
        fun _ (down : stripSeg first = .down _) => stripSeg_eq_down down
      rw [length_append, length_cons] at bound
      have later := ih (move st (stripSeg first))
      rw [Stripping.stripSegs_cons _ more, walk_cons]
      omega

end Components

open Stripping in
/-- What `stripdir` makes of an absolute path that its buffer can hold. -/
theorem stripdir_absolute (below : Bool) (cwd : Option (List Char)) {rest buf : List Char}
    (maxlen : Nat) (clean : '\x00' ∉ rest) (low : rest.length + 1 < maxlen)
    (room : rest.length + 2 < buf.length) :
    ∃ after, stripdir below cwd ('/' :: rest) buf maxlen = some (true, after) ∧
      text after = '/' :: joined (walk [] (stripSegs below (rest.splitOn '/'))) ∧
      after.length = buf.length := by
  have inside : 0 < buf.length := by omega
  have inside' : 0 < (buf.set 0 '\x00').length := by rwa [length_set]
  let first : Stripping := ⟨(buf.set 0 '\x00').set 0 '/',
    lastSlash ('/' :: rest ++ ['\x00']) 0 + 1, 1, 0⟩
  have turned : turn ('/' :: rest ++ ['\x00']) below ⟨buf.set 0 '\x00', 0, 0, 0⟩ =
      some (false, first) := by
    rw [turn_of_store (c := '/') rfl inside', if_pos (Or.inl rfl)]
    rfl
  have copied : Copied first [] [] := ⟨prefix_set nil_prefix inside' '/', rfl, rfl⟩
  have length : first.buf.length = buf.length := by rw [length_set, length_set]
  have shorter : (rest.dropWhile (· = '/')).length ≤ rest.length :=
    (dropWhile_suffix _).length_le
  obtain ⟨ended, after, ran, trimmed, same, size⟩ := loop_ends below maxlen
    (rest.length + 1) copied (fun _ member => absurd member not_mem_nil)
    ⟨not_mem_nil, not_mem_nil⟩ (drop_lastSlash 0 rfl)
    (fun null => clean ((dropWhile_sublist _).mem null)) (fun _ => head?_skip rest)
    (by omega) (by change 1 + _ < _; omega) (by change 1 + _ + 1 < _; omega)
  refine ⟨after, ?_, by rw [same, nil_append, walk_skip], size.trans length⟩
  have started : start cwd ('/' :: rest) (buf.set 0 '\x00') =
      some (some ⟨buf.set 0 '\x00', 0, 0, 0⟩) := if_pos rfl
  have looped : loop ('/' :: rest ++ ['\x00']) below maxlen (rest.length + 2)
      ⟨buf.set 0 '\x00', 0, 0, 0⟩ = some (true, ended) := by
    rw [loop, if_pos (Nat.lt_of_le_of_lt (Nat.zero_le _) low), turned]
    exact ran
  simp only [stripdir, store_of_lt inside, bind_some, started, length_cons, looped,
    if_true, trimmed, map_some]

end Wzdftpd
