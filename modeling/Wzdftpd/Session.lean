import Mathlib.Data.UInt

/- The records a command handler reads and writes: the user and group tables,
the file system as the system calls answer for it, and the session context.
Texts are lists of characters without the terminator and have no length of
their own; the length tests of the source are kept where it makes them. -/
namespace Wzdftpd

abbrev Text := List Char

/-- WZD_MAX_PATH -/
def maxPath : Nat := 1024

/-- HARD_PERMFILE -/
def permFile : Text := ".dirinfo".toList

/-- The codes of `wzd_errno_t` that the modelled functions return. -/
inductive Errno where
  | ok | noDataCtx | paramNull | paramBig | paramInvalid | wrongPath | notDir | isDir | noPerm
  | connectTimeout | pasvFailed | xferProgress | xferRejected | credsInsuff
  | userRejected | userNoHome | userNoIp | userClosed | userDeleted | userNumLogins
  | userLoginsPerIp
  | userTooManyUsers | userTlsForced | groupNumLogins | passRejected
  | fileNoExist | fileForbidden | userIDontExist | mkdirPathFilter | commandFailed
  deriving DecidableEq, Repr

def Errno.code : Errno → Nat
  | .ok => 0
  | .noDataCtx => 1
  | .paramNull => 2
  | .paramBig => 3
  | .paramInvalid => 4
  | .wrongPath => 6
  | .notDir => 7
  | .isDir => 8
  | .noPerm => 9
  | .connectTimeout => 12
  | .pasvFailed => 13
  | .xferProgress => 15
  | .xferRejected => 16
  | .credsInsuff => 17
  | .userRejected => 18
  | .userNoHome => 19
  | .userNoIp => 20
  | .userClosed => 23
  | .userDeleted => 24
  | .userNumLogins => 25
  | .userLoginsPerIp => 26
  | .userTooManyUsers => 27
  | .userTlsForced => 28
  | .groupNumLogins => 29
  | .passRejected => 30
  | .fileNoExist => 31
  | .fileForbidden => 32
  | .userIDontExist => 34
  | .mkdirPathFilter => 38
  | .commandFailed => 39

/-- The RIGHT_ bits. -/
inductive Right where
  | list | retr | stor | dele | cwd | mkdir | rmdir | rnfr
  deriving DecidableEq, Repr

def Right.mask : Right → Nat
  | .list => 0x1
  | .retr => 0x2
  | .stor => 0x4
  | .dele => 0x10
  | .cwd => 0x10000
  | .mkdir => 0x20000
  | .rmdir => 0x40000
  | .rnfr => 0x200000

/-- One line of an address list; `regexp` may start with an ident and `@`. -/
structure IpEntry where
  regexp : Text
  isAllowed : Bool

structure User where
  uid : Nat
  username : Text
  rootpath : Text
  flags : Text := []
  userperms : Nat
  groups : List Nat := []
  numLogins : Nat := 0
  loginsPerIp : Nat := 0
  ratio : Nat := 0
  credits : Nat := 0
  maxIdleTime : Nat := 0
  userpass : Text := []
  ipList : List IpEntry := []

/-- `user->userperms & right` -/
def User.may (user : User) (right : Right) : Bool := user.userperms &&& right.mask ≠ 0

/-- `strchr(user->flags, flag)` -/
def User.has (user : User) (flag : Char) : Bool := flag ∈ user.flags

structure Group where
  groupname : Text
  numLogins : Nat := 0
  maxIdleTime : Nat := 0
  ipList : List IpEntry := []

inductive FileKind where
  | reg | dir | lnk | other
  deriving DecidableEq, Repr

structure FileStat where
  kind : FileKind
  size : Nat := 0
  deriving DecidableEq, Repr

/-- `wzd_file_kind_t` -/
inductive EntryKind where
  | notSet | reg | dir | lnk | vfs
  deriving DecidableEq, Repr

structure AclLine where
  user : Text
  read : Char
  write : Char
  enter : Char

/-- One entry of a permission file, as `readPermFile` decodes it. -/
structure PermEntry where
  filename : Text
  owner : Text := []
  group : Text := []
  permissions : Nat := 0
  acl : List AclLine := []
  kind : EntryKind := .notSet
  data : Text := []

/-- The answers of the file system: `none` where the call fails. -/
structure FileSystem where
  lstat : Text → Option FileStat
  stat : Text → Option FileStat
  readPermFile : Text → Option (List PermEntry) := fun _ => none

structure VfsEntry where
  virtualDir : Text
  physicalDir : Text
  target : Option Text := none

/-- What the server holds outside of a session. `vfsReplaceCookies` and
`vfsMatchPerm` stand for the functions of the same names (`Server.withVfs`). -/
structure Server where
  getUserByID : Nat → Option User
  getGroupByID : Nat → Option Group := fun _ => none
  vfs : List VfsEntry := []
  vfsReplaceCookies : Text → User → Option Text := fun path _ => some path
  vfsMatchPerm : Option Text → User → Bool := fun _ _ => true
  hideDottedFiles : Bool := false
  denyAccessFilesUploaded : Bool := false
  experimental : Bool := false

def Server.single (user : User) : Server :=
  { getUserByID := fun uid => if uid = user.uid then some user else none }

def FileSystem.ofList (files : List (Text × FileKind)) : FileSystem :=
  { lstat := fun path => (files.lookup path).map fun kind => ⟨kind, 0⟩
    stat := fun path => (files.lookup path).map fun kind => ⟨kind, 0⟩ }

inductive ConnectionState where
  | unknown | connecting | logging | command | xfer
  deriving DecidableEq, Repr

/-- The values of `current_action.token` that a handler stores. -/
inductive Token where
  | unknown | mkd | retr | stor | dele | rnfr
  deriving DecidableEq, Repr

inductive NetFamily where
  | none | inet4 | inet6
  deriving DecidableEq, Repr

inductive DataMode where
  | port | pasv
  deriving DecidableEq, Repr

inductive TlsDataMode where
  | clear | priv
  deriving DecidableEq, Repr

/-- An address buffer of sixteen bytes; an IPv4 address is the first four. -/
structure Ip where
  front : Vector UInt8 4
  back : Vector UInt8 12
  deriving DecidableEq, Repr

/-- `memset(ip, 0, 16)` -/
def Ip.zero : Ip := ⟨Vector.replicate 4 0, Vector.replicate 12 0⟩

structure Action where
  token : Token := .unknown
  arg : Text := []
  currentFile : Option Nat := none
  bytesnow : Nat := 0
  deriving DecidableEq, Repr

/-- A current path is absolute: `/` after the login, and then what `do_chdir`
leaves. -/
structure CurrentPath where
  text : Text
  absolute : text.head? = some '/'

def CurrentPath.root : CurrentPath := ⟨['/'], rfl⟩

/-- `wzd_context_t`. Descriptors are `none` where the source has `-1`. -/
structure Context where
  userid : Nat
  currentpath : CurrentPath
  family : NetFamily := .inet4
  hostip : Ip := .zero
  state : ConnectionState := .command
  exitclient : Bool := false
  controlSocket : Nat := 0
  dataSocket : Option Nat := none
  pasvSocket : Option Nat := none
  datamode : DataMode := .port
  datafamily : NetFamily := .none
  /-- The 32 bits of the `int`. -/
  dataport : Nat := 0
  dataip : Ip := .zero
  tlsDataMode : TlsDataMode := .clear
  /-- The CONNECTION_TLS bit of `connection_flags`. -/
  tls : Bool := false
  ident : Option Text := none
  idntAddress : Option Text := none
  transferThread : Bool := false
  isTransferring : Bool := false
  resume : Nat := 0
  currentAction : Action := {}

/-- A user whose root is `/srv`, with every right. -/
def srvUser : User :=
  { uid := 1, username := "ann".toList, rootpath := "/srv".toList, userperms := 0xffffffff }

/-- A session of that user in `/`. -/
def srvContext : Context := { userid := 1, currentpath := .root }

/-- `EVENT_OK` and its siblings. -/
inductive EventReply where
  | ok | break | deny | error
  deriving DecidableEq, Repr

inductive Event where
  | preUpload | postUpload | postUploadDenied | preDownload | postDownload
  | preMkdir | mkdir | rmdir | dele | preRename | postRename
  deriving DecidableEq, Repr

inductive OpenMode where
  | rdOnly | wrOnlyCreat
  deriving DecidableEq, Repr

/-- What the outside answers while one command or data event is handled: the
file system before and after the command's hook has run, and one answer for
each kind of call the handler makes. -/
structure World where
  server : Server
  fs : FileSystem
  fsAfter : FileSystem
  hook : Event → List Text → EventReply := fun _ _ => .ok
  fsOpen : Text → OpenMode → Option Nat := fun _ _ => some 0
  isLocked : Nat → Option Bool := fun _ => some false
  fsRename : Text → Text → Bool := fun _ _ => true
  /-- `socket_connect`: the connected socket. -/
  connect : Option Nat := none
  /-- `select` and `accept` on the passive socket: the new socket, the peer's
  address and family. -/
  accept : Option (Nat × Ip × NetFamily) := none
  tlsInit : Bool := true
  /-- `socket`, `bind` and `listen` for a passive connection: the socket, and
  the port when binding and listening succeed. -/
  passive : Option (Nat × Option Nat) := none
  /-- The address bytes of the reply to PASV. -/
  pasvAddress : List Text := []
  fsMkdir : Text → Bool := fun _ => true
  fileRemove : Text → Bool := fun _ => true
  /-- The path filter of the section that holds a path accepts a name. -/
  pathFilter : Text → Text → Bool := fun _ _ => true
  /-- `list` and `mlsd_directory` have sent the whole listing. -/
  listed : Bool := true
  mlstSingleFile : Text → Option Text := fun _ => none

/-- What a handler does outside of the context, in order. -/
inductive Effect where
  | message (code : Nat) (args : List Text)
  | raw (text : Text)
  | event (id : Event) (args : List Text)
  | fileOpen (path : Text) (mode : OpenMode)
  | fileClose (fd : Nat)
  | fileChown (path owner : Text) (group : Option Text)
  | fileRename (source target : Text)
  | fileRemove (path : Text)
  | fileMkdir (path : Text)
  | fileRmdir (path : Text)
  | socketOpen (sock : Nat)
  | socketClose (sock : Nat)
  deriving DecidableEq, Repr

structure Outcome where
  ret : Errno
  ctx : Context
  effects : List Effect

/-- The usual exit of a handler: one reply and a code. -/
def answer (ctx : Context) (ret : Errno) (code : Nat) (args : List String) : Outcome :=
  ⟨ret, ctx, [.message code (args.map String.toList)]⟩

/-- The rest of a handler after it has done `effects`. -/
def Outcome.after (effects : List Effect) (rest : Outcome) : Outcome :=
  { rest with effects := effects ++ rest.effects }

variable (effects : List Effect)

@[simp] theorem Outcome.after_ret (rest : Outcome) :
    (rest.after effects).ret = rest.ret := rfl

@[simp] theorem Outcome.after_ctx (rest : Outcome) :
    (rest.after effects).ctx = rest.ctx := rfl

@[simp] theorem Outcome.after_effects (rest : Outcome) :
    (rest.after effects).effects = effects ++ rest.effects := rfl

end Wzdftpd
