import Mathlib.Logic.Relation
import Wzdftpd.PathSimplify

/- `path_simplify` of wzd_dir.c once more, in a memory that ends somewhere: a read or a
write outside of it makes a turn of the loop `none`. -/
namespace Wzdftpd

open SegmentWalk LexicalPath TextBuffer List Option Nat

/-- The buffer and the two indices between two turns of the loop. -/
structure Simplifying where
  filename : List Char
  pos : Nat
  pos2 : Nat

namespace Simplifying

/-- `(strncmp(filename + pos, "/./", 3) == 0) || (strcmp(filename + pos, "/.") == 0)`, and the
same for two dots -/
def dotsAt (filename dots : List Char) (pos : Nat) : Option Bool :=
  (startsAt filename (dots ++ ['/']) pos).bind fun followed =>
    if followed then some true else startsAt filename (dots ++ ['\x00']) pos

/-- `while ((pos2 > 0) && (filename[pos2] != '/')) pos2--;` -/
def backUpIn (filename : List Char) : Nat → Option Nat
  | 0 => some 0
  | pos2 + 1 =>
    filename[pos2 + 1]?.bind fun c =>
      if c = '/' then some (pos2 + 1) else backUpIn filename pos2

/-- `filename[pos2] = c; pos2++;` and the end of the turn -/
def put (s : Simplifying) (c : Char) : Option Simplifying :=
  (store s.filename s.pos2 c).map fun filename => ⟨filename, s.pos + 1, s.pos2 + 1⟩

/-- `if (pos2 > 1) pos2--;` -/
def before (s : Simplifying) : Nat := if s.pos2 > 1 then s.pos2 - 1 else s.pos2

def slash (s : Simplifying) : Option Simplifying :=
  s.filename[s.pos + 1]?.bind fun next =>
    if next = '/' then some ⟨s.filename, s.pos + 1, s.pos2⟩
    else
      (dotsAt s.filename ['/', '.'] s.pos).bind fun dot =>
        if dot then some ⟨s.filename, s.pos + 2, s.pos2⟩
        else
          (dotsAt s.filename ['/', '.', '.'] s.pos).bind fun dotDot =>
            if dotDot then
              (backUpIn s.filename s.before).bind fun back =>
                s.filename[back]?.map fun c =>
                  ⟨s.filename, if c = '/' then s.pos + 3 else s.pos + 4, back⟩
            else s.put '/'

/-- One turn of the loop; the terminator ends it. -/
def turn (s : Simplifying) : Option (Option Simplifying) :=
  s.filename[s.pos]?.bind fun c =>
    if c = '\x00' then some none
    else if c = '/' then s.slash.map some
    else (s.put c).map some

def run : Nat → Simplifying → Option Simplifying
  | 0, _ => none
  | turns + 1, s => s.turn.bind fun next => next.elim (some s) (run turns)

def finish (s : Simplifying) : Option (List Char) :=
  if s.pos2 = 0 then (store s.filename 0 '/').bind fun filename => store filename 1 '\x00'
  else store s.filename s.pos2 '\x00'

def Turns (s next : Simplifying) : Prop := s.turn = some (some next)

end Simplifying

/-- The buffer that `path_simplify` leaves. Every turn advances `pos`, so as many turns as
bytes are enough. -/
def pathSimplifyIn (filename : List Char) : Option (List Char) :=
  (Simplifying.run filename.length ⟨filename, 0, 0⟩).bind Simplifying.finish

example : (pathSimplifyIn "/a/../b\x00??".toList) = some "/b\x00../b\x00??".toList := by decide

theorem backUp_le (filename : List Char) (start : Nat) : backUp filename start ≤ start := by
  induction start with
  | zero => exact Nat.le_refl 0
  | succ start ih =>
    rw [backUp]
    split
    · exact Nat.le_refl _
    · omega

theorem backUp_slash {filename : List Char} (root : filename[0]? = some '/') (start : Nat) :
    filename[backUp filename start]? = some '/' := by
  induction start with
  | zero => exact root
  | succ start ih =>
    rw [backUp]
    split
    · assumption
    · exact ih

namespace Simplifying

/-- What holds between two turns in the buffer of an absolute path. Where nothing is written
yet, the next character is a separator. -/
structure Running (filename : List Char) (pos pos2 : Nat) : Prop where
  plain : '\x00' ∉ filename
  inside : pos ≤ filename.length
  behind : pos2 ≤ pos
  root : filename[0]? = some '/'
  opening : pos2 = 0 → ∀ c, filename[pos]? = some c → c = '/'

theorem Running.start {path : List Char} (plain : '\x00' ∉ '/' :: path) :
    Running ('/' :: path) 0 0 :=
  ⟨plain, Nat.zero_le _, Nat.le_refl 0, rfl, fun _ _ found => (some.inj found).symm⟩

section Turns

variable {filename dots : List Char} {pos pos2 : Nat} (behind : List Char)

theorem backUpIn_eq {start : Nat} (inside : start ≤ filename.length) :
    backUpIn (filename ++ '\x00' :: behind) start = some (backUp filename start) := by
  induction start with
  | zero => rfl
  | succ start ih =>
    rw [backUpIn, backUp, ih (by omega)]
    rcases Nat.lt_or_eq_of_le inside with below | last
    · rw [getElem?_append_left below, getElem?_eq_getElem below, bind_some]
      simp only [some.injEq]
      split <;> rfl
    · simp [last]

theorem dotsAt_eq (running : Running filename pos pos2) (plain : '\x00' ∉ dots) :
    dotsAt (filename ++ '\x00' :: behind) dots pos =
      some (decide (dots ++ ['/'] <+: filename.drop pos ∨ filename.drop pos = dots)) := by
  have left : (filename ++ '\x00' :: behind).drop pos = filename.drop pos ++ '\x00' :: behind :=
    drop_append_of_le_length running.inside
  have whole : '\x00' ∉ filename.drop pos := fun null => running.plain (mem_of_mem_drop null)
  have open' : '\x00' ∉ dots ++ ['/'] := by
    rw [mem_append, not_or]
    exact ⟨plain, by decide⟩
  have first : startsAt (filename ++ '\x00' :: behind) (dots ++ ['/']) pos =
      some (decide (dots ++ ['/'] <+: filename.drop pos)) := by
    rw [startsAt_eq (by rwa [dropLast_concat]) left, left]
    simp only [prefix_text_iff open']
  have second : startsAt (filename ++ '\x00' :: behind) (dots ++ ['\x00']) pos =
      some (decide (filename.drop pos = dots)) := by
    rw [startsAt_eq (by rwa [dropLast_concat]) left, left]
    simp only [closed_prefix_text_iff plain whole]
  rw [dotsAt, first, second]
  by_cases followed : dots ++ ['/'] <+: filename.drop pos
  · simp [followed]
  · simp [followed]

theorem after_dots (some' : dots ≠ [])
    (here : dots ++ ['/'] <+: filename.drop pos ∨ filename.drop pos = dots) :
    pos + dots.length ≤ filename.length ∧ ∀ c, filename[pos + dots.length]? = some c → c = '/' := by
  have positive : 0 < dots.length := length_pos_iff.mpr some'
  rcases here with ⟨tail, same⟩ | same
  · have length := congrArg length same
    simp only [length_append, length_drop] at length
    refine ⟨by omega, fun c found => ?_⟩
    rw [← getElem?_drop, ← same, append_assoc,
      getElem?_append_right (Nat.le_refl _), Nat.sub_self] at found
    cases found
    rfl
  · have length := congrArg length same
    rw [length_drop] at length
    refine ⟨by omega, fun c found => ?_⟩
    rw [getElem?_eq_none (by omega)] at found
    cases found

/-- A turn in the buffer does what the turn on the text does, and stays in front of the
terminator. -/
structure Follows (behind filename : List Char) (pos : Nat) (next : List Char × Nat × Nat)
    (turned : Option Simplifying) : Prop where
  same : turned = some ⟨next.1 ++ '\x00' :: behind, next.2.1, next.2.2⟩
  running : Running next.1 next.2.1 next.2.2
  forward : pos < next.2.1
  length : next.1.length = filename.length

theorem Running.put {c : Char} (running : Running filename pos pos2)
    (here : filename[pos]? = some c) :
    Follows behind filename pos (filename.set pos2 c, pos + 1, pos2 + 1)
      (Simplifying.put ⟨filename ++ '\x00' :: behind, pos, pos2⟩ c) := by
  have below := (List.getElem?_eq_some_iff.mp here).1
  have behind := running.behind
  refine ⟨?_, ⟨fun null => ?_, ?_, succ_le_succ behind, ?_, fun start => ?_⟩,
    lt_succ_self pos, length_set⟩
  · have stored := store_of_lt (show pos2 < filename.length by omega) c
    rw [Simplifying.put, store_frame stored]
    rfl
  · rcases mem_or_eq_of_mem_set null with member | same
    · exact running.plain member
    · exact running.plain (same ▸ mem_of_getElem? here)
  · rw [length_set]
    exact below
  · by_cases start : pos2 = 0
    · rw [start, running.opening start c here, getElem?_set_self (by omega)]
    · rw [getElem?_set_ne start, running.root]
  · cases start

theorem Running.double (running : Running filename pos pos2)
    (double : filename[pos + 1]? = some '/') :
    Follows behind filename pos (filename, pos + 1, pos2)
      (slash ⟨filename ++ '\x00' :: behind, pos, pos2⟩) := by
  have inside := (List.getElem?_eq_some_iff.mp double).1
  refine ⟨?_, ⟨running.plain, Nat.le_of_lt inside, le_add_right_of_le running.behind,
    running.root, fun _ c found => ?_⟩, lt_succ_self pos, rfl⟩
  · simp only [slash, getElem?_frame double, bind_some, if_true]
  · exact some.inj (found.symm.trans double)

/-- In front of something else than a second separator, the two comparisons decide. -/
theorem Running.slash_eq (running : Running filename pos pos2) (below : pos < filename.length)
    (single : filename[pos + 1]? ≠ some '/') :
    slash ⟨filename ++ '\x00' :: behind, pos, pos2⟩ =
      if ['/', '.', '/'] <+: filename.drop pos ∨ filename.drop pos = ['/', '.'] then
        some ⟨filename ++ '\x00' :: behind, pos + 2, pos2⟩
      else if ['/', '.', '.', '/'] <+: filename.drop pos ∨ filename.drop pos = ['/', '.', '.'] then
        (backUpIn (filename ++ '\x00' :: behind)
          (if pos2 > 1 then pos2 - 1 else pos2)).bind fun back =>
            (filename ++ '\x00' :: behind)[back]?.map fun c =>
              ⟨filename ++ '\x00' :: behind, if c = '/' then pos + 3 else pos + 4, back⟩
      else Simplifying.put ⟨filename ++ '\x00' :: behind, pos, pos2⟩ '/' := by
  obtain ⟨d, next, apart⟩ : ∃ d, (filename ++ '\x00' :: behind)[pos + 1]? = some d ∧ d ≠ '/' := by
    rcases Nat.lt_or_eq_of_le below with inside | last
    · refine ⟨filename[pos + 1], getElem?_frame (getElem?_eq_getElem inside) _, ?_⟩
      exact fun same => single (by rw [getElem?_eq_getElem inside, same])
    · refine ⟨'\x00', ?_, by decide⟩
      rw [← succ_eq_add_one, last, getElem?_null]
  simp only [slash, next, bind_some, if_neg apart, before,
    dotsAt_eq behind running (show '\x00' ∉ ['/', '.'] by decide),
    dotsAt_eq behind running (show '\x00' ∉ ['/', '.', '.'] by decide), decide_eq_true_eq,
    cons_append, nil_append]

theorem Running.slash (running : Running filename pos pos2) (here : filename[pos]? = some '/') :
    Follows behind filename pos (simplifyStep filename '/' pos pos2)
      (slash ⟨filename ++ '\x00' :: behind, pos, pos2⟩) := by
  have below := (List.getElem?_eq_some_iff.mp here).1
  have ordered := running.behind
  unfold simplifyStep
  rw [if_pos rfl]
  by_cases double : filename[pos + 1]? = some '/'
  · rw [if_pos double]
    exact running.double behind double
  rw [if_neg double, running.slash_eq behind below double]
  by_cases dot : ['/', '.', '/'] <+: filename.drop pos ∨ filename.drop pos = ['/', '.']
  · obtain ⟨inside, ends⟩ := after_dots (cons_ne_nil '/' ['.']) dot
    rw [if_pos dot, if_pos dot]
    exact ⟨rfl, ⟨running.plain, inside, le_add_right_of_le running.behind, running.root,
      fun _ => ends⟩, Nat.lt_add_of_pos_right (by decide), rfl⟩
  rw [if_neg dot, if_neg dot]
  by_cases dotDot : ['/', '.', '.', '/'] <+: filename.drop pos ∨ filename.drop pos = ['/', '.', '.']
  · obtain ⟨inside, ends⟩ := after_dots (cons_ne_nil '/' ['.', '.']) dotDot
    have start : (if pos2 > 1 then pos2 - 1 else pos2) ≤ pos := by
      split <;> omega
    have found := backUp_slash running.root (if pos2 > 1 then pos2 - 1 else pos2)
    have low := backUp_le filename (if pos2 > 1 then pos2 - 1 else pos2)
    have back := Nat.le_trans low start
    rw [if_pos dotDot, if_pos dotDot, backUpIn_eq behind (Nat.le_trans start running.inside),
      bind_some, getElem?_frame found]
    simp only [if_pos found]
    exact ⟨rfl, ⟨running.plain, inside, le_add_right_of_le back, running.root, fun _ => ends⟩,
      Nat.lt_add_of_pos_right (by decide), rfl⟩
  · rw [if_neg dotDot, if_neg dotDot]
    exact running.put behind here

theorem Running.turn {c : Char} (running : Running filename pos pos2)
    (here : filename[pos]? = some c) :
    ∃ next, Turns ⟨filename ++ '\x00' :: behind, pos, pos2⟩ next ∧
      Follows behind filename pos (simplifyStep filename c pos pos2) (some next) := by
  have other : c ≠ '\x00' := fun null => running.plain (null ▸ mem_of_getElem? here)
  simp only [Turns, Simplifying.turn, getElem?_frame here, bind_some, if_neg other]
  by_cases separator : c = '/'
  · subst separator
    have follows := running.slash behind here
    rw [follows.same]
    exact ⟨_, rfl, follows.same ▸ follows⟩
  · have follows := running.put behind here
    rw [if_neg separator, follows.same, simplifyStep, if_neg separator]
    exact ⟨_, rfl, follows.same ▸ follows⟩

theorem Running.ends (running : Running filename pos pos2) (last : filename[pos]? = none) :
    Simplifying.turn ⟨filename ++ '\x00' :: behind, pos, pos2⟩ = some none := by
  have ended : pos = filename.length :=
    Nat.le_antisymm running.inside (getElem?_eq_none_iff.mp last)
  simp [Simplifying.turn, ended]

theorem Running.run (turns extra : Nat) : ∀ {filename : List Char} {pos pos2 : Nat},
    Running filename pos pos2 → filename.length < pos + turns →
    ∃ pos', Simplifying.run (turns + extra) ⟨filename ++ '\x00' :: behind, pos, pos2⟩ =
        some ⟨(simplifyLoop turns filename pos pos2).1 ++ '\x00' :: behind, pos',
          (simplifyLoop turns filename pos pos2).2⟩ ∧
      Running (simplifyLoop turns filename pos pos2).1 pos'
        (simplifyLoop turns filename pos pos2).2 ∧
      (simplifyLoop turns filename pos pos2).1.length = filename.length := by
  induction turns with
  | zero =>
    intro filename pos pos2 running enough
    have inside := running.inside
    omega
  | succ turns ih =>
    intro filename pos pos2 running enough
    cases here : filename[pos]? with
    | none =>
      rw [simplifyLoop, here, succ_add, Simplifying.run, running.ends behind here]
      exact ⟨pos, rfl, running, rfl⟩
    | some c =>
      obtain ⟨_, turned, follows⟩ := running.turn behind here
      have left := follows.forward
      have length := follows.length
      cases follows.same
      obtain ⟨pos', ran, after, size⟩ := ih follows.running (by omega)
      rw [simplifyLoop, here, succ_add, Simplifying.run, turned]
      exact ⟨pos', ran, after, size.trans length⟩

theorem Running.reached {s last : Simplifying} {start : List Char}
    (first : s.filename = start ++ '\x00' :: behind) (running : Running start s.pos s.pos2)
    (reached : Relation.ReflTransGen Turns s last) :
    ∃ filename, last.filename = filename ++ '\x00' :: behind ∧
      Running filename last.pos last.pos2 := by
  induction reached with
  | refl => exact ⟨start, first, running⟩
  | @tail s next _ turned ih =>
    obtain ⟨filename, same, running⟩ := ih
    obtain ⟨_, pos, _⟩ := s
    cases same
    cases here : filename[pos]? with
    | none => cases Eq.trans (Eq.symm turned) (running.ends behind here)
    | some c =>
      obtain ⟨_, turned', follows⟩ := running.turn behind here
      cases Eq.trans (Eq.symm turned) turned'
      cases follows.same
      exact ⟨_, rfl, follows.running⟩

end Turns

end Simplifying

open Simplifying in
/-- What is left of an absolute path. Nothing behind its terminator is changed. -/
theorem pathSimplifyIn_eq {path : List Char} (plain : '\x00' ∉ '/' :: path) :
    '\x00' ∉ canonical ('/' :: path) ∧ ∃ left, left.length + (canonical ('/' :: path)).length =
        ('/' :: path).length ∧
      ∀ behind, pathSimplifyIn ('/' :: path ++ '\x00' :: behind) =
        some (canonical ('/' :: path) ++ '\x00' :: (left ++ behind)) := by
  obtain ⟨last, loop, written⟩ := simplifyLoop_absolute path (le_succ ('/' :: path).length)
  have ran (behind : List Char) := Running.run behind (('/' :: path).length + 1) behind.length
    (.start plain) (by omega)
  simp only [loop] at ran
  obtain ⟨_, _, running, length⟩ := ran []
  have below := Nat.le_trans running.behind running.inside
  have turns (behind : List Char) : ('/' :: path ++ '\x00' :: behind).length =
      ('/' :: path).length + 1 + behind.length := by
    rw [length_append, Nat.add_assoc, Nat.add_comm 1]
    rfl
  have moved (behind : List Char) : last ++ '\x00' :: behind = last ++ ['\x00'] ++ behind := by
    rw [append_assoc, singleton_append]
  rw [canonical]
  by_cases nothing : rendered (resolve ('/' :: path)) ++ trailing ('/' :: path) = []
  · obtain ⟨_, last, rfl⟩ := exists_cons_of_length_eq_add_one length
    obtain ⟨_, rest, shape⟩ := exists_cons_of_ne_nil (concat_ne_nil '\x00' last)
    rw [if_pos nothing]
    refine ⟨by decide, rest, ?_, fun behind => ?_⟩
    · have size := congrArg List.length shape
      simp only [length_append, length_cons, length_nil] at size length ⊢
      omega
    · obtain ⟨pos, ran, _⟩ := ran behind
      rw [pathSimplifyIn, turns, ran, bind_some, finish, nothing, moved]
      simp only [length_nil, if_true, cons_append, shape]
      rfl
  · rw [if_neg nothing]
    have empty := mt length_eq_zero_iff.mp nothing
    generalize rendered (resolve ('/' :: path)) ++ trailing ('/' :: path) = out at *
    have whole : out.length + 1 ≤ (last ++ ['\x00']).length := by
      rw [length_append]
      exact succ_le_succ below
    refine ⟨fun null => running.plain (written.subset null),
      (last ++ ['\x00']).drop (out.length + 1), ?_, fun behind => ?_⟩
    · simp only [length_append, length_cons, length_drop, length_nil] at *
      omega
    obtain ⟨pos, ran, _⟩ := ran behind
    have front : (last ++ '\x00' :: behind).take out.length = out :=
      (prefix_iff_eq_take.mp (written.trans (prefix_append _ _))).symm
    rw [pathSimplifyIn, turns, ran, bind_some, finish, if_neg empty,
      store_of_take (by rw [length_append, length_cons]; omega) front, moved,
      drop_append_of_le_length whole]

/-- `path_simplify` on an absolute path: the canonical form, without a look behind the
terminator, and the same form when it is simplified again. -/
theorem path_simplify_canonical (path : List Char) (absolute : path.head? = some '/')
    (plain : '\x00' ∉ path) :
    ∃ once, (∀ behind, pathSimplifyIn (path ++ '\x00' :: behind) = some (once ++ behind)) ∧
      once.length = (path ++ ['\x00']).length ∧
      text once = '/' :: joined (resolve path) ++
        (if path.getLast? = some '/' ∧ resolve path ≠ [] then ['/'] else []) ∧
      (∀ s, Relation.ReflTransGen Simplifying.Turns ⟨path ++ ['\x00'], 0, 0⟩ s →
        s.pos2 ≤ s.pos) ∧
      ∃ twice, pathSimplifyIn once = some twice ∧ text twice = text once := by
  obtain ⟨path, rfl⟩ : ∃ tail, path = '/' :: tail := by
    cases path with
    | nil => cases absolute
    | cons c tail => exact ⟨tail, congrArg (· :: tail) (some.inj absolute)⟩
  obtain ⟨clean, left, _, ran⟩ := pathSimplifyIn_eq plain
  obtain ⟨tail, same, _⟩ := canonical_eq ('/' :: path)
  have first : text (canonical ('/' :: path) ++ '\x00' :: left) = canonical ('/' :: path) :=
    text_append clean left
  refine ⟨canonical ('/' :: path) ++ '\x00' :: left, fun behind => ?_, ?_, ?_,
    fun s reached => ?_, ?_⟩
  · rw [ran, append_assoc, cons_append]
  · rw [length_append, length_cons, length_append, length_singleton]
    omega
  · rw [first, canonical_eq_joined]
  · obtain ⟨_, _, running⟩ := Simplifying.Running.reached [] rfl (.start plain) reached
    exact running.behind
  · rw [same] at clean
    obtain ⟨_, _, _, again⟩ := pathSimplifyIn_eq clean
    rw [← same, canonical_canonical] at again
    rw [← same] at clean
    exact ⟨_, again left, (text_append clean _).trans first.symm⟩

theorem path_simplify_canonical_dots :
    ∃ once, (∀ behind, pathSimplifyIn ("/a/./b/..//c/".toList ++ '\x00' :: behind) =
        some (once ++ behind)) ∧
      text once = "/a/c/".toList := by
  obtain ⟨once, ran, _, same, _⟩ := path_simplify_canonical "/a/./b/..//c/".toList (by decide)
    (by decide)
  exact ⟨once, ran, same.trans (by decide)⟩

end Wzdftpd
