import Wzdftpd.Session
import Wzdftpd.TextBuffer

/- `vfs_replace_cookies`: the cookies in the path of a virtual directory are replaced in a
buffer of `2 * WZD_MAX_PATH` bytes. A write outside of the buffer gives `none`, the null
pointer is `some none`. -/
namespace Wzdftpd

open TextBuffer List Option

def vfsBufferSize : Nat := 2 * maxPath

/-- The cookie in front of a path, with what it stands for. -/
def vfsCookie (user : User) (group : Option Group) (path : Text) : Option (Text × Text) :=
  if "%username".toList <+: path then some ("%username".toList, user.username)
  else if "%usergroup".toList <+: path then
    group.map fun group => ("%usergroup".toList, group.groupname)
  else if "%userhome".toList <+: path then some ("%userhome".toList, user.rootpath)
  else none

def vfsReplaceLoop (user : User) (group : Option Group) :
    Text → Text → Nat → Option (Option (Text × Nat))
  | [], buffer, length => some (some (buffer, length))
  | c :: rest, buffer, length =>
    if vfsBufferSize ≤ length then some none
    else if c = '%' then
      match vfsCookie user group (c :: rest) with
      | none => some none
      | some (cookie, value) =>
        if vfsBufferSize ≤ length + value.length then some none
        else (place buffer length value).bind fun buffer =>
          vfsReplaceLoop user group (rest.drop (cookie.length - 1)) buffer (length + value.length)
    else (store buffer length c).bind fun buffer =>
      vfsReplaceLoop user group rest buffer (length + 1)
termination_by path => path.length

def Server.primaryGroup (server : Server) (user : User) : Option Group :=
  user.groups.head?.bind server.getGroupByID

/-- `buffer` is what the array on the stack holds before. -/
def vfsReplaceCookies (server : Server) (userid : Nat) (path buffer : Text) :
    Option (Option Text) :=
  match server.getUserByID userid with
  | none => some none
  | some user =>
    (vfsReplaceLoop user (server.primaryGroup user) path buffer 0).bind fun
      | none => some none
      | some (buffer, length) => (store buffer length '\x00').map fun buffer => some (text buffer)

/-- The cookies, with what they stand for. -/
def VfsCookies (user : User) (group : Option Group) (cookie value : Text) : Prop :=
  cookie = "%username".toList ∧ value = user.username ∨
    (cookie = "%usergroup".toList ∧ ∃ g, group = some g ∧ value = g.groupname) ∨
    cookie = "%userhome".toList ∧ value = user.rootpath

/-- The path with each cookie replaced. What is kept holds no percent sign, with which every
cookie begins. -/
inductive Expands (cookies : Text → Text → Prop) : Text → Text → Prop
  | nil : Expands cookies [] []
  | char {c : Char} {path out : Text} (plain : c ≠ '%') (rest : Expands cookies path out) :
    Expands cookies (c :: path) (c :: out)
  | cookie {cookie value path out : Text} (known : cookies cookie value)
    (rest : Expands cookies path out) : Expands cookies (cookie ++ path) (value ++ out)

/-- A path of that kind that ends with a character of its own. -/
def ExpandsToChar (cookies : Text → Text → Prop) (path out : Text) : Prop :=
  ∃ before c made, path = before ++ [c] ∧ c ≠ '%' ∧ Expands cookies before made ∧ out = made ++ [c]

variable {user : User} {group : Option Group} {path out front cells cookie value : Text}

theorem vfsCookie_append (known : VfsCookies user group cookie value) (rest : Text) :
    vfsCookie user group (cookie ++ rest) = some (cookie, value) := by
  unfold vfsCookie
  rcases known with ⟨rfl, rfl⟩ | ⟨rfl, g, rfl, rfl⟩ | ⟨rfl, rfl⟩ <;> simp

theorem vfsCookie_eq_some (found : vfsCookie user group path = some (cookie, value)) :
    VfsCookies user group cookie value ∧ cookie <+: path := by
  unfold vfsCookie at found
  split at found
  · rename_i here
    cases found
    exact ⟨.inl ⟨rfl, rfl⟩, here⟩
  split at found
  · rename_i here
    obtain ⟨g, same, pair⟩ := map_eq_some_iff.mp found
    cases pair
    exact ⟨.inr (.inl ⟨rfl, g, same, rfl⟩), here⟩
  split at found
  · rename_i here
    cases found
    exact ⟨.inr (.inr ⟨rfl, rfl⟩), here⟩
  · cases found

theorem VfsCookies.percent (known : VfsCookies user group cookie value) :
    ∃ name, cookie = '%' :: name := by
  rcases known with ⟨rfl, _⟩ | ⟨rfl, _⟩ | ⟨rfl, _⟩ <;> exact ⟨_, rfl⟩

/-- One turn at a cookie. -/
theorem vfsReplaceLoop_cookie (known : VfsCookies user group cookie value) (rest : Text)
    (fits : front.length + value.length < vfsBufferSize)
    (room : vfsBufferSize ≤ (front ++ cells).length) :
    vfsReplaceLoop user group (cookie ++ rest) (front ++ cells) front.length =
      vfsReplaceLoop user group rest (front ++ value ++ cells.drop value.length)
        (front ++ value).length := by
  obtain ⟨_, rfl⟩ := known.percent
  rw [length_append] at room
  rw [cons_append, vfsReplaceLoop, if_neg (by omega), if_pos rfl, ← cons_append,
    vfsCookie_append known]
  simp only
  rw [if_neg (by omega), TextBuffer.place_append (by omega), bind_some, length_cons,
    Nat.add_sub_cancel, drop_left, length_append]

/-- One turn at another character. -/
theorem vfsReplaceLoop_char {c : Char} (plain : c ≠ '%') (rest : Text)
    (fits : front.length < vfsBufferSize) (room : vfsBufferSize ≤ (front ++ cells).length) :
    vfsReplaceLoop user group (c :: rest) (front ++ cells) front.length =
      vfsReplaceLoop user group rest (front ++ [c] ++ cells.drop 1) (front ++ [c]).length := by
  rw [vfsReplaceLoop, if_neg (by omega), if_neg plain, store_of_lt (by omega), bind_some,
    length_append, length_singleton]
  rw [length_append] at room
  obtain ⟨_, cells, rfl⟩ := exists_cons_of_length_pos (show 0 < cells.length by omega)
  simp

theorem vfsReplaceLoop_expands (expands : Expands (VfsCookies user group) path out) (rest : Text) :
    ∀ (front cells : Text), front.length + out.length < vfsBufferSize →
      vfsBufferSize ≤ (front ++ cells).length →
      vfsReplaceLoop user group (path ++ rest) (front ++ cells) front.length =
        vfsReplaceLoop user group rest (front ++ out ++ cells.drop out.length)
          (front ++ out).length := by
  induction expands with
  | nil => simp
  | char plain _ ih =>
    intro front cells fits room
    rw [length_cons] at fits
    rw [cons_append, vfsReplaceLoop_char plain _ (by omega) room, ih]
    · simp
    · simp only [length_append, length_singleton]
      omega
    · simp at room ⊢
      omega
  | @cookie cookie value path out known _ ih =>
    intro front cells fits room
    rw [length_append] at fits
    rw [append_assoc, vfsReplaceLoop_cookie known _ (by omega) room, ih]
    · simp
    · simp only [length_append]
      omega
    · simp at room ⊢
      omega

/-- What a run of the loop leaves: the path is replaced, and the buffer is full only behind a
single character. -/
def VfsReplaced (user : User) (group : Option Group) (path front : Text)
    (result : Option (Text × Nat)) : Prop :=
  ∀ buffer length, result = some (buffer, length) → ∃ out behind,
    Expands (VfsCookies user group) path out ∧ buffer = front ++ out ++ behind ∧
      buffer.length = vfsBufferSize ∧ length = (front ++ out).length ∧
      (length < vfsBufferSize ∨ path = [] ∧ out = [] ∨
        ExpandsToChar (VfsCookies user group) path out)

theorem VfsReplaced.atChar {c : Char} {result : Option (Text × Nat)} (plain : c ≠ '%')
    (ran : VfsReplaced user group path (front ++ [c]) result) :
    VfsReplaced user group (c :: path) front result := by
  intro buffer length same
  obtain ⟨out, behind, expands, rfl, full, rfl, last⟩ := ran buffer length same
  refine ⟨c :: out, behind, .char plain expands, by simp, full, by simp, ?_⟩
  rcases last with short | ⟨rfl, rfl⟩ | ⟨before, d, made, rfl, other, expanded, rfl⟩
  · exact .inl short
  · exact .inr (.inr ⟨[], c, [], rfl, plain, .nil, rfl⟩)
  · exact .inr (.inr ⟨c :: before, d, c :: made, rfl, other, .char plain expanded, rfl⟩)

theorem VfsReplaced.atCookie {result : Option (Text × Nat)}
    (known : VfsCookies user group cookie value)
    (fits : front.length + value.length < vfsBufferSize)
    (ran : VfsReplaced user group path (front ++ value) result) :
    VfsReplaced user group (cookie ++ path) front result := by
  intro buffer length same
  obtain ⟨out, behind, expands, rfl, full, rfl, last⟩ := ran buffer length same
  refine ⟨value ++ out, behind, .cookie known expands, by simp, full, by simp, ?_⟩
  rcases last with short | ⟨rfl, rfl⟩ | ⟨before, d, made, rfl, other, expanded, rfl⟩
  · exact .inl short
  · left
    simpa using fits
  · exact .inr (.inr ⟨cookie ++ before, d, value ++ made, by simp, other, .cookie known expanded,
      by simp⟩)

theorem vfsReplaceLoop_replaced (user : User) (group : Option Group) (n : Nat) :
    ∀ {path front cells : Text}, path.length ≤ n → (front ++ cells).length = vfsBufferSize →
      ∃ result, vfsReplaceLoop user group path (front ++ cells) front.length = some result ∧
        VfsReplaced user group path front result := by
  induction n with
  | zero =>
    intro path front cells short room
    obtain rfl := length_eq_zero_iff.mp (Nat.le_zero.mp short)
    refine ⟨some (front ++ cells, front.length), by rw [vfsReplaceLoop], ?_⟩
    rintro _ length ⟨rfl, rfl⟩
    exact ⟨[], cells, .nil, by simp, room, by simp, .inr (.inl ⟨rfl, rfl⟩)⟩
  | succ n ih =>
    intro path front cells short room
    cases path with
    | nil => exact ih (Nat.zero_le _) room
    | cons c rest =>
      rcases Nat.lt_or_ge front.length vfsBufferSize with fits | full
      · by_cases percent : c = '%'
        · cases found : vfsCookie user group (c :: rest) with
          | none =>
            exact ⟨none, by rw [vfsReplaceLoop, if_neg (by omega), if_pos percent, found], nofun⟩
          | some pair =>
            obtain ⟨known, tail, same⟩ := vfsCookie_eq_some found
            rcases Nat.lt_or_ge (front.length + pair.2.length) vfsBufferSize with less | long
            · obtain ⟨_, cookie⟩ := known.percent
              have shorter := congrArg length same
              rw [cookie, length_append, length_cons, length_cons] at shorter
              rw [length_cons] at short
              rw [← same, vfsReplaceLoop_cookie known tail less (Nat.le_of_eq room.symm)]
              obtain ⟨result, ran, replaced⟩ := @ih tail (front ++ pair.2)
                (cells.drop pair.2.length) (by omega) (by simp at room ⊢; omega)
              exact ⟨result, ran, replaced.atCookie known less⟩
            · refine ⟨none, ?_, nofun⟩
              rw [vfsReplaceLoop, if_neg (by omega), if_pos percent, found]
              exact if_pos long
        · rw [vfsReplaceLoop_char percent rest fits (Nat.le_of_eq room.symm)]
          obtain ⟨result, ran, replaced⟩ := @ih rest (front ++ [c]) (cells.drop 1)
            (Nat.le_of_succ_le_succ short) (by simp at room ⊢; omega)
          exact ⟨result, ran, replaced.atChar percent⟩
      · exact ⟨none, by rw [vfsReplaceLoop, if_pos full], nofun⟩

theorem Expands.null_notMem {cookies : Text → Text → Prop} (expands : Expands cookies path out)
    (values : ∀ cookie value, cookies cookie value → '\x00' ∉ value) :
    '\x00' ∉ path → '\x00' ∉ out := by
  induction expands with
  | nil => exact id
  | char _ _ ih =>
    intro plain
    rw [mem_cons, not_or] at plain ⊢
    exact ⟨plain.1, ih plain.2⟩
  | cookie known _ ih =>
    intro plain
    rw [mem_append, not_or] at plain ⊢
    exact ⟨values _ _ known, ih plain.2⟩

theorem Expands.of_plain (cookies : Text → Text → Prop) (plain : '%' ∉ path) :
    Expands cookies path path := by
  induction path with
  | nil => exact .nil
  | cons c path ih =>
    rw [mem_cons, not_or] at plain
    exact .char (Ne.symm plain.1) (ih plain.2)

/-- The terminator of a result that fills the buffer is written behind the buffer. -/
theorem vfsReplaceCookies_full {server : Server} {userid : Nat} {buffer : Text}
    (found : server.getUserByID userid = some user) (size : buffer.length = vfsBufferSize)
    (toChar : ExpandsToChar (VfsCookies user (server.primaryGroup user)) path out)
    (full : out.length = vfsBufferSize) : vfsReplaceCookies server userid path buffer = none := by
  obtain ⟨_, c, _, rfl, other, expands, rfl⟩ := toChar
  rw [length_append, length_singleton] at full
  have turns := vfsReplaceLoop_expands expands [c] [] buffer (by simp; omega) (by simp [size])
  rw [nil_append, nil_append, length_nil, vfsReplaceLoop_char other _ (by omega) (by simp; omega),
    vfsReplaceLoop] at turns
  simp only [vfsReplaceCookies, found, turns, bind_some]
  rw [store, if_neg (by simp; omega)]
  rfl

/-- The replacement stays in its buffer, and replaces every cookie, unless the result ends
with a character of the path and fills the buffer: the terminator is then written behind it. -/
theorem vfsReplaceCookies_exact_iff (server : Server) (userid : Nat) (user : User)
    (path buffer : Text) (found : server.getUserByID userid = some user)
    (size : buffer.length = vfsBufferSize) (plain : '\x00' ∉ path)
    (values : ∀ cookie value, VfsCookies user (server.primaryGroup user) cookie value →
      '\x00' ∉ value) :
    (∃ result, vfsReplaceCookies server userid path buffer = some result ∧
      ∀ out, result = some out → Expands (VfsCookies user (server.primaryGroup user)) path out) ↔
      ∀ out, ExpandsToChar (VfsCookies user (server.primaryGroup user)) path out →
        out.length ≠ vfsBufferSize := by
  constructor
  · rintro ⟨result, ran, _⟩ out toChar full
    rw [vfsReplaceCookies_full found size toChar full] at ran
    cases ran
  · intro short
    simp only [vfsReplaceCookies, found]
    generalize server.primaryGroup user = group at values short ⊢
    obtain ⟨result, ran, replaced⟩ := vfsReplaceLoop_replaced user group path.length
      (Nat.le_refl _) (show ([] ++ buffer).length = _ from size)
    rw [nil_append, length_nil] at ran
    rw [ran, bind_some]
    cases result with
    | none => exact ⟨none, rfl, nofun⟩
    | some left =>
      obtain ⟨out, behind, expands, whole, full, length, last⟩ := replaced left.1 left.2 rfl
      have inside : left.2 < vfsBufferSize := by
        rcases last with less | ⟨rfl, rfl⟩ | toChar
        · exact less
        · rw [length]
          decide
        · have := short out toChar
          rw [whole] at full
          simp at full length
          omega
      rw [nil_append] at whole length
      have written : store left.1 left.2 '\x00' = some (out ++ '\x00' :: behind.drop 1) := by
        rw [store_of_take (by omega) (by rw [whole, length, take_left]), whole, length,
          drop_length_add_append]
      refine ⟨some out, ?_, fun _ same => some.inj same ▸ expands⟩
      simp only [written, map_some]
      rw [text_append (expands.null_notMem values plain)]

def cookieUser : User :=
  { uid := 1, username := "bob".toList, rootpath := "/bob".toList, userperms := 0 }

theorem vfsReplaceCookies_exact_iff_home :
    ∃ result, vfsReplaceCookies (.single cookieUser) 1 "%userhome".toList
        (replicate vfsBufferSize ' ') = some result ∧
      ∀ out, result = some out → Expands (VfsCookies cookieUser none) "%userhome".toList out := by
  refine (vfsReplaceCookies_exact_iff _ 1 cookieUser _ _ rfl length_replicate (by decide) ?_).mpr ?_
  · rintro cookie _ (⟨_, rfl⟩ | ⟨_, _, absent, _⟩ | ⟨_, rfl⟩)
    · decide
    · cases absent
    · decide
  · rintro out ⟨_, _, _, same, _, expands, _⟩
    have cut := congrArg dropLast same
    rw [dropLast_concat] at cut
    cases expands with
    | nil => cases cut
    | char other _ => exact absurd (cons.inj cut).1.symm other
    | cookie known _ => rcases known with ⟨rfl, _⟩ | ⟨rfl, _⟩ | ⟨rfl, _⟩ <;> cases cut

/-- A path of `2 * WZD_MAX_PATH` characters without a cookie. -/
theorem vfsReplaceCookies_overrun :
    vfsReplaceCookies (.single cookieUser) 1 (replicate vfsBufferSize 'a')
      (replicate vfsBufferSize ' ') = none := by
  have toChar : ExpandsToChar (VfsCookies cookieUser none) (replicate vfsBufferSize 'a')
      (replicate vfsBufferSize 'a') :=
    ⟨_, 'a', _, replicate_succ', by decide, .of_plain _ (mt eq_of_mem_replicate (by decide)),
      replicate_succ'⟩
  exact vfsReplaceCookies_full rfl length_replicate toChar length_replicate

end Wzdftpd
