import Wzdftpd.LexicalPath
import Wzdftpd.TextBuffer

/- `path_simplify` of wzd_dir.c. The buffer is rewritten in place: `pos` reads,
`pos2` writes, and a read past the last character sees the terminator. -/
namespace Wzdftpd

open SegmentWalk LexicalPath TextBuffer List

/-- `while ((pos2 > 0) && (filename[pos2] != '/')) pos2--;` -/
def backUp (filename : List Char) : Nat → Nat
  | 0 => 0
  | pos2 + 1 => if filename[pos2 + 1]? = some '/' then pos2 + 1 else backUp filename pos2

/-- One turn of the loop at the character `c = filename[pos]`. -/
def simplifyStep (filename : List Char) (c : Char) (pos pos2 : Nat) : List Char × Nat × Nat :=
  if c = '/' then
    if filename[pos + 1]? = some '/' then (filename, pos + 1, pos2)
    else if ['/', '.', '/'] <+: filename.drop pos ∨ filename.drop pos = ['/', '.'] then
      (filename, pos + 2, pos2)
    else if ['/', '.', '.', '/'] <+: filename.drop pos ∨ filename.drop pos = ['/', '.', '.'] then
      let back := backUp filename (if pos2 > 1 then pos2 - 1 else pos2)
      if filename[back]? = some '/' then (filename, pos + 3, back) else (filename, pos + 4, back)
    else (filename.set pos2 '/', pos + 1, pos2 + 1)
  else (filename.set pos2 c, pos + 1, pos2 + 1)

/-- Every turn advances `pos`, so as many turns as characters are enough. -/
def simplifyLoop : Nat → List Char → Nat → Nat → List Char × Nat
  | 0, filename, _, pos2 => (filename, pos2)
  | turns + 1, filename, pos, pos2 =>
    match filename[pos]? with
    | none => (filename, pos2)
    | some c =>
      let next := simplifyStep filename c pos pos2
      simplifyLoop turns next.1 next.2.1 next.2.2

def pathSimplify (filename : List Char) : List Char :=
  let last := simplifyLoop filename.length filename 0 0
  if last.2 = 0 then ['/'] else last.1.take last.2

example : pathSimplify "/a//b/./../c/".toList = "/a/c/".toList := by decide

theorem backUp_eq (filename : List Char) (stop start : Nat) (below : stop ≤ start)
    (found : filename[stop]? = some '/')
    (skipped : ∀ i, stop < i → i ≤ start → filename[i]? ≠ some '/') :
    backUp filename start = stop := by
  induction start with
  | zero =>
    have same : stop = 0 := by omega
    rw [same, backUp]
  | succ start ih =>
    rw [backUp]
    by_cases here : stop = start + 1
    · rw [here] at found
      rw [if_pos found, here]
    · rw [if_neg (skipped (start + 1) (by omega) (Nat.le_refl _))]
      exact ih (by omega) (fun i low high => skipped i low (by omega))

/-- Between two components: `st` is kept, `rest` is left to read. Writing stays behind reading. -/
structure Between (filename : List Char) (pos pos2 : Nat) (st : List (List Char))
    (rest : List Char) : Prop where
  unread : filename.drop pos = rest
  kept : rendered st <+: filename
  plain : ∀ name ∈ st, Plain name
  length : pos2 = (rendered st).length
  behind : pos2 ≤ pos
  root : filename[0]? = some '/'

theorem Between.read {filename : List Char} {pos pos2 : Nat} {st : List (List Char)}
    {rest : List Char} (at' : Between filename pos pos2 st rest) (i : Nat) :
    filename[pos + i]? = rest[i]? := by
  simp [← at'.unread]

theorem simplifyLoop_copy (run : List Char) (noSlash : '/' ∉ run) :
    ∀ (front filename : List Char) (pos turns : Nat) (rest : List Char),
      filename.drop pos = run ++ rest → front <+: filename → front.length ≤ pos →
      ∃ copied, simplifyLoop (run.length + turns) filename pos front.length =
          simplifyLoop turns copied (pos + run.length) (front ++ run).length ∧
        copied.drop (pos + run.length) = rest ∧ front ++ run <+: copied := by
  induction run with
  | nil =>
    intro front filename pos turns rest unread start _
    exact ⟨filename, by simp, by simpa using unread, by simpa using start⟩
  | cons c run ih =>
    intro front filename pos turns rest unread start behind
    have here : filename[pos]? = some c := by
      have first := congrArg (·[0]?) unread
      simpa using first
    have inside : pos < filename.length := (List.getElem?_eq_some_iff.mp here).1
    have other : c ≠ '/' := fun slash => noSlash (by simp [slash])
    have next : (filename.set front.length c).drop (pos + 1) = run ++ rest := by
      rw [drop_set_of_lt (by omega), ← drop_drop, unread]
      rfl
    obtain ⟨copied, loop, left, out⟩ := ih (fun member => noSlash (by simp [member]))
      (front ++ [c]) (filename.set front.length c) (pos + 1) turns rest next
      (prefix_set start (by omega) c) (by simpa using behind)
    rw [Nat.add_assoc, Nat.add_comm 1] at loop left
    rw [append_assoc, singleton_append] at loop out
    refine ⟨copied, ?_, left, out⟩
    rw [length_cons, Nat.add_right_comm, simplifyLoop, here, ← loop, length_append]
    simp only [simplifyStep, if_neg other]
    rfl

/-- The loop's test for the component `dots` after a separator: followed by
another separator, or at the end of the text. -/
theorem dots_iff (component dots : List Char) (rest : List (List Char))
    (noSlash : '/' ∉ component) (noDots : '/' ∉ dots) :
    ('/' :: (dots ++ ['/']) <+: '/' :: (component ++ rendered rest) ∨
      '/' :: (component ++ rendered rest) = '/' :: dots) ↔ component = dots := by
  constructor
  · rintro (⟨tail, same⟩ | same)
    · have tailShape : '/' :: tail = rendered (tail.splitOn '/') := (rendered_splitOn tail).symm
      simp only [cons_append, append_assoc, nil_append, cons.injEq, true_and,
        tailShape] at same
      exact component_eq_of_append noSlash noDots same.symm
    · have same' : component ++ rendered rest = dots ++ rendered [] := by
        simpa using same
      exact component_eq_of_append noSlash noDots same'
  · rintro rfl
    cases rest with
    | nil => exact Or.inr (by simp)
    | cons first rest => exact Or.inl ⟨first ++ rendered rest, by simp⟩

section Turns

variable {filename : List Char} {pos pos2 : Nat} {st : List (List Char)} {rest : List Char}

theorem Between.loop (at' : Between filename pos pos2 st ('/' :: rest)) (turns : Nat) :
    simplifyLoop (turns + 1) filename pos pos2 =
      simplifyLoop turns (simplifyStep filename '/' pos pos2).1
        (simplifyStep filename '/' pos pos2).2.1 (simplifyStep filename '/' pos pos2).2.2 := by
  have here : filename[pos]? = some '/' := by simpa using at'.read 0
  rw [simplifyLoop, here]

theorem Between.skip (at' : Between filename pos pos2 st ('/' :: '/' :: rest)) :
    simplifyStep filename '/' pos pos2 = (filename, pos + 1, pos2) ∧
      Between filename (pos + 1) pos2 st ('/' :: rest) := by
  have next : filename[pos + 1]? = some '/' := by simpa using at'.read 1
  refine ⟨by simp only [simplifyStep, next, ↓reduceIte], ?_, at'.kept, at'.plain, at'.length,
    by have := at'.behind; omega, at'.root⟩
  rw [← drop_drop, at'.unread]
  rfl

variable {component : List Char} {cs : List (List Char)}

theorem Between.not_slash (at' : Between filename pos pos2 st ('/' :: (component ++ rendered cs)))
    (noSlash : '/' ∉ component) (some' : component ≠ []) : filename[pos + 1]? ≠ some '/' := by
  obtain ⟨_, component, rfl⟩ := exists_cons_of_ne_nil some'
  rw [at'.read 1]
  simp only [cons_append, getElem?_cons_succ, getElem?_cons_zero, ne_eq, Option.some.injEq]
  exact fun slash => noSlash (by simp [slash])

theorem Between.advance (at' : Between filename pos pos2 st ('/' :: (component ++ rendered cs))) :
    filename.drop (pos + (component.length + 1)) = rendered cs := by
  rw [← drop_drop, at'.unread]
  simp

theorem Between.dot (at' : Between filename pos pos2 st ('/' :: (['.'] ++ rendered cs))) :
    simplifyStep filename '/' pos pos2 = (filename, pos + 2, pos2) ∧
      Between filename (pos + 2) pos2 st (rendered cs) := by
  have single := (dots_iff ['.'] ['.'] cs (by simp) (by simp)).mpr rfl
  rw [← at'.unread] at single
  have other := at'.not_slash (by simp) (by simp)
  refine ⟨?_, at'.advance, at'.kept, at'.plain, at'.length, by have := at'.behind; omega, at'.root⟩
  simp only [cons_append, nil_append] at single
  simp [simplifyStep, if_neg other, if_pos single]

theorem Between.backUp (at' : Between filename pos pos2 st rest) :
    backUp filename (if pos2 > 1 then pos2 - 1 else pos2) = (rendered st.dropLast).length := by
  have long := at'.length
  rcases eq_nil_or_concat st with rfl | ⟨front, last, rfl⟩
  · have start : pos2 = 0 := by simpa using long
    simp [start, Wzdftpd.backUp]
  rw [concat_eq_append] at at' long ⊢
  obtain ⟨_, rfl⟩ := at'.kept
  have lastPlain := at'.plain last (by simp)
  have positive : 0 < last.length := length_pos_iff.mpr lastPlain.ne_nil
  rw [rendered_concat, length_append, length_cons] at long
  rw [if_pos (by omega), dropLast_concat, rendered_concat, append_assoc]
  apply backUp_eq
  · omega
  · simp
  intro i low high
  obtain ⟨k, rfl⟩ : ∃ k, i = (rendered front).length + (k + 1) :=
    ⟨i - (rendered front).length - 1, by omega⟩
  rw [getElem?_append_right (by omega), Nat.add_sub_cancel_left, cons_append,
    getElem?_cons_succ, getElem?_append_left (by omega)]
  intro slash
  exact lastPlain.noSlash (mem_of_getElem? slash)

theorem Between.pop (at' : Between filename pos pos2 st rest) :
    filename[(rendered st.dropLast).length]? = some '/' ∧
      Between filename pos (rendered st.dropLast).length st.dropLast rest := by
  rcases eq_nil_or_concat st with rfl | ⟨front, last, rfl⟩
  · have start : pos2 = 0 := by simpa using at'.length
    subst start
    exact ⟨at'.root, at'⟩
  rw [concat_eq_append] at at' ⊢
  have kept := at'.kept
  have long := at'.length
  have behind := at'.behind
  rw [rendered_concat] at kept long
  rw [length_append] at long
  rw [dropLast_concat]
  refine ⟨?_, at'.unread, (prefix_append _ _).trans kept,
    fun name member => at'.plain name (by simp [member]), rfl, by omega, at'.root⟩
  exact getElem?_behind (((prefix_append_right_inj _).mpr ⟨last, rfl⟩).trans kept)

theorem Between.dotDot (at' : Between filename pos pos2 st ('/' :: (['.', '.'] ++ rendered cs))) :
    simplifyStep filename '/' pos pos2 = (filename, pos + 3, (rendered st.dropLast).length) ∧
      Between filename (pos + 3) (rendered st.dropLast).length st.dropLast (rendered cs) := by
  obtain ⟨found, popped⟩ := at'.pop
  have single := mt (dots_iff ['.', '.'] ['.'] cs (by simp) (by simp)).mp (by simp)
  have double := (dots_iff ['.', '.'] ['.', '.'] cs (by simp) (by simp)).mpr rfl
  rw [← at'.unread] at single double
  have other := at'.not_slash (by simp) (by simp)
  refine ⟨?_, at'.advance, popped.kept, popped.plain, popped.length,
    by have := popped.behind; omega, at'.root⟩
  simp only [cons_append, nil_append] at single double
  simp [simplifyStep, if_neg other, if_neg single, if_pos double, at'.backUp, if_pos found]

theorem Between.keep (at' : Between filename pos pos2 st ('/' :: (component ++ rendered cs)))
    (noSlash : '/' ∉ component) (last : component = [] → cs = []) (dot : component ≠ ['.'])
    (dotDot : component ≠ ['.', '.']) :
    simplifyStep filename '/' pos pos2 = (filename.set pos2 '/', pos + 1, pos2 + 1) := by
  have single := mt (dots_iff component ['.'] cs noSlash (by simp)).mp dot
  have double := mt (dots_iff component ['.', '.'] cs noSlash (by simp)).mp dotDot
  rw [← at'.unread] at single double
  simp only [cons_append, nil_append] at single double
  have other : filename[pos + 1]? ≠ some '/' := by
    by_cases empty : component = []
    · rw [at'.read 1, last empty]
      simp [empty]
    · exact at'.not_slash noSlash empty
  simp [simplifyStep, if_neg other, if_neg single, if_neg double]

theorem Between.inside (at' : Between filename pos pos2 st ('/' :: rest)) :
    pos < filename.length := by
  have here : filename[pos]? = some '/' := by simpa using at'.read 0
  exact (List.getElem?_eq_some_iff.mp here).1

theorem Between.name (at' : Between filename pos pos2 st ('/' :: (component ++ rendered cs)))
    (plain : Plain component) (turns : Nat) :
    ∃ copied, simplifyLoop (component.length + turns + 1) filename pos pos2 =
        simplifyLoop turns copied (pos + (component.length + 1))
          (rendered (st ++ [component])).length ∧
      Between copied (pos + (component.length + 1)) (rendered (st ++ [component])).length
        (st ++ [component]) (rendered cs) := by
  obtain ⟨noSlash, some', dot, dotDot⟩ := (plain_iff component).mp plain
  have behind := at'.behind
  have inside := at'.inside
  have long := at'.length
  have next : (filename.set pos2 '/').drop (pos + 1) = component ++ rendered cs := by
    rw [drop_set_of_lt (by omega), ← drop_drop, at'.unread]
    rfl
  rw [long] at next behind
  obtain ⟨copied, loop, left, out⟩ := simplifyLoop_copy component noSlash (rendered st ++ ['/'])
    _ (pos + 1) turns (rendered cs) next (prefix_set at'.kept (by omega) '/')
    (by simpa using behind)
  rw [Nat.add_assoc, Nat.add_comm 1] at loop left
  rw [append_assoc, singleton_append, ← rendered_concat st component] at loop out
  refine ⟨copied, ?_, left, out, ?_, rfl, ?_, ?_⟩
  · rw [at'.loop, at'.keep noSlash (fun empty => absurd empty some') dot dotDot, long]
    simpa using loop
  · exact forall_mem_append.mpr ⟨at'.plain, forall_mem_singleton.mpr plain⟩
  · rw [rendered_concat, length_append, length_cons]
    omega
  · obtain ⟨behind, rfl⟩ := out
    cases st <;> simp [rendered_concat]

theorem simplifyLoop_end {filename : List Char} {pos pos2 : Nat} (turns : Nat)
    (done : filename.drop pos = []) : simplifyLoop turns filename pos pos2 = (filename, pos2) := by
  cases turns with
  | zero => rfl
  | succ turns =>
    have ended : filename[pos]? = none :=
      getElem?_eq_none (drop_eq_nil_iff.mp done)
    rw [simplifyLoop, ended]

end Turns

theorem closed_cons {c : List Char} (cs : List (List Char)) (other : c = [] → cs ≠ []) :
    (c :: cs).getLast? = some [] ↔ cs.getLast? = some [] := by
  cases cs with
  | nil => simpa using fun empty => other empty rfl
  | cons d ds => simp

/-- What the loop leaves behind, read from between two components. -/
theorem simplifyLoop_between (cs : List (List Char)) (noSlash : ∀ c ∈ cs, '/' ∉ c) :
    ∀ (filename : List Char) (pos pos2 turns : Nat) (st : List (List Char)),
      Between filename pos pos2 st (rendered cs) → (rendered cs).length ≤ turns →
      ∃ last out, simplifyLoop turns filename pos pos2 = (last, out.length) ∧ out <+: last ∧
        out = rendered (walk st (cs.map segOf)) ++ if cs.getLast? = some [] then ['/'] else [] := by
  induction cs with
  | nil =>
    intro filename pos pos2 turns st at' _
    refine ⟨filename, rendered st, ?_, ?_, by simp⟩
    · rw [simplifyLoop_end turns at'.unread, at'.length]
    · exact at'.kept
  | cons c cs ih =>
    intro filename pos pos2 turns st at' enough
    have noSlash' : ∀ c ∈ cs, '/' ∉ c := fun d member => noSlash d (by simp [member])
    have noC : '/' ∉ c := noSlash c (by simp)
    rw [rendered_cons, length_cons, length_append] at enough
    obtain ⟨turns, rfl⟩ : ∃ more, turns = more + 1 := ⟨turns - 1, by omega⟩
    rw [map_cons]
    -- one case for each way the loop can treat the separator before `c`
    by_cases empty : c = []
    · subst empty
      cases cs with
      | nil =>
        have inside := at'.inside
        have behind := at'.behind
        have next : (filename.set pos2 '/').drop (pos + 1) = [] := by
          rw [drop_set_of_lt (by omega), ← drop_drop, at'.unread]
          rfl
        refine ⟨filename.set pos2 '/', rendered st ++ ['/'], ?_, ?_, ?_⟩
        · rw [at'.loop, at'.keep noC (fun _ => rfl) (by simp) (by simp)]
          rw [simplifyLoop_end turns next, at'.length]
          simp
        · rw [at'.length]
          exact prefix_set at'.kept (by rw [← at'.length]; omega) '/'
        · simp [segOf, move]
      | cons d ds =>
        obtain ⟨step, next⟩ := at'.skip
        rw [at'.loop, step]
        exact ih noSlash' filename _ _ turns st next (by omega)
    · simp only [closed_cons cs (fun none => absurd none empty)]
      by_cases dot : c = ['.']
      · subst dot
        obtain ⟨step, next⟩ := at'.dot
        rw [at'.loop, step]
        exact ih noSlash' filename _ _ turns st next (by omega)
      · by_cases dotDot : c = ['.', '.']
        · subst dotDot
          obtain ⟨step, next⟩ := at'.dotDot
          rw [at'.loop, step]
          exact ih noSlash' filename _ _ turns st.dropLast next (by omega)
        · have plain : Plain c := (plain_iff c).mpr ⟨noC, empty, dot, dotDot⟩
          obtain ⟨copied, loop, next⟩ := at'.name plain (turns - c.length)
          rw [show c.length + (turns - c.length) = turns by omega] at loop
          rw [loop, plain.names]
          exact ih noSlash' copied _ _ _ (st ++ [c]) next (by omega)

variable (path : List Char)

/-- What the loop leaves of an absolute path, in as many turns as characters or more. -/
theorem simplifyLoop_absolute {turns : Nat} (enough : ('/' :: path).length ≤ turns) :
    ∃ last, simplifyLoop turns ('/' :: path) 0 0 =
        (last, (rendered (resolve ('/' :: path)) ++ trailing ('/' :: path)).length) ∧
      rendered (resolve ('/' :: path)) ++ trailing ('/' :: path) <+: last := by
  have shape : '/' :: path = rendered (path.splitOn '/') := (rendered_splitOn path).symm
  have start : Between ('/' :: path) 0 0 [] (rendered (path.splitOn '/')) :=
    ⟨shape, nil_prefix, by simp, rfl, Nat.le_refl 0, rfl⟩
  obtain ⟨last, _, loop, written, same⟩ := simplifyLoop_between (path.splitOn '/')
    (fun _ member => noSlash_of_mem_splitOn member) ('/' :: path) 0 0 turns []
    start (shape ▸ enough)
  have resolved : walk [] ((path.splitOn '/').map segOf) = resolve ('/' :: path) :=
    (resolve_append [] path).symm
  have closed : (path.splitOn '/').getLast? = some [] ↔ ('/' :: path).getLast? = some '/' := by
    rw [shape, rendered_closed fun _ member => noSlash_of_mem_splitOn member]
  simp only [resolved, closed] at same
  rw [trailing, ← same]
  exact ⟨last, loop, written⟩

theorem pathSimplify_eq : pathSimplify ('/' :: path) = canonical ('/' :: path) := by
  obtain ⟨_, loop, written⟩ := simplifyLoop_absolute path (Nat.le_refl _)
  simp only [pathSimplify, loop, ← prefix_iff_eq_take.mp written, canonical, length_eq_zero_iff]

theorem resolve_pathSimplify : resolve (pathSimplify ('/' :: path)) = resolve ('/' :: path) := by
  rw [pathSimplify_eq, resolve_canonical]

end Wzdftpd
