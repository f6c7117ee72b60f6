import CftpServer.Session.Data
import CftpServer.Security.Auth
import CftpServer.Lib.Rounding

/-!
# LIST and NLST (`actions/list.c`)

On a plain data connection the listing is written at once. With TLS the request is kept in the connection, and
`listTlsOnBevEventConnected` makes the listing when the handshake is done.
-/

namespace CftpServer.Session

open CLib Command Security

def PATH_MAX : Nat := 4096

/-- `list_flags_t`. -/
structure ListFlags where
  all : Bool
  human : Bool
  recursive : Bool
  path : Option Bytes
deriving DecidableEq, Repr

/-- The loop of `parse_list_flags`. -/
def parseListFlags : List Bytes → ListFlags → Option ListFlags
  | [], flags => some flags
  | arg :: args, flags =>
    if arg = ascii "-a" then parseListFlags args { flags with all := true }
    else if arg = ascii "-h" then parseListFlags args { flags with human := true }
    else if arg = ascii "-R" then parseListFlags args { flags with recursive := true }
    else if flags.path.isNone then parseListFlags args { flags with path := some arg }
    else none

/-- The unit `human_readable_size` stops at, as a power of 1024. -/
def sizeUnit (s : Nat) : Nat :=
  if s < 1024 then 0 else if s < 1024 ^ 2 then 1 else if s < 1024 ^ 3 then 2 else if s < 1024 ^ 4 then 3
  else if s < 1024 ^ 5 then 4 else 5

/-- `human_readable_size`: the size as a `double`, divided down by 1024, with one decimal and its unit. -/
def humanReadableSize (size : Nat) : Bytes :=
  let s := Rounding.roundBits 53 size
  let tenths := Rounding.roundDiv (10 * s) (1024 ^ sizeUnit s)
  cut 32 (dec (tenths / 10) ++ ascii "." ++ dec (tenths % 10) ++
    ascii (["B", "K", "M", "G", "T", "P"].getD (sizeUnit s) ""))

example : humanReadableSize 1536 = ascii "1.5K" := by decide

/-- The permission string: the type, then nine bits. -/
def permString (st : Stat) : Bytes :=
  ascii (match st.type with | .dir => "d" | .lnk => "l" | _ => "-") ++
    (List.range 9).flatMap fun i =>
      if st.perm.testBit (8 - i) then ascii (["r", "w", "x"].getD (i % 3) "") else ascii "-"

example : permString ⟨.dir, 0o755, 2, 0, 0, 4096, 0⟩ = ascii "drwxr-xr-x" := by decide

section

variable {σ : Type} (env : Env σ)

/-- `format_unix_list_entry`. -/
def formatUnixListEntry (name : Bytes) (st : Stat) (human : Bool) (s : Session σ) : Bytes :=
  let username := env.askRootForUsername s.os st.uid
  let groupname := env.askRootForGroupname s.os st.gid
  let sizebuf := if human then humanReadableSize st.size else cut 32 (padLeft 8 (dec st.size))
  cut PATH_MAX (permString st ++ ascii " " ++ padLeft 2 (dec st.nlink) ++ ascii " " ++ padRight 8 username ++
    ascii " " ++ padRight 8 groupname ++ ascii " " ++ padLeft 10 sizebuf ++ ascii " " ++
    env.strftimeLocal st.mtime ++ ascii " " ++ name ++ ascii "\r\n")

/-- The loop of `send_list_command_output` over the names of the directory: the lines it puts into `evbuf`. -/
def listEntries (path : Bytes) (description hidden human : Bool) : List Bytes → Session σ → Bytes × Session σ
  | [], s => ([], s)
  | name :: names, s =>
    if name = ascii "." ∨ name = ascii ".." then listEntries path description hidden human names s
    else
      let fullpath := cut PATH_MAX (path ++ ascii "/" ++ name)
      let (st, s) := sysLstat env fullpath s
      match st with
      | none => listEntries path description hidden human names s
      | some st =>
        if hidden = false ∧ name.head? = some 46 then listEntries path description hidden human names s
        else
          let line := if description then formatUnixListEntry env name st human s
            else cut PATH_MAX (name ++ ascii "\r\n")
          let (lines, s) := listEntries path description hidden human names s
          (line ++ lines, s)

/-- What follows the loop: nothing to send ends the command, else the listing goes out. -/
def sendListing (evbuf : Bytes) (s : Session σ) : Session σ :=
  if evbuf = [] then
    sendControlMessage env 226 (ascii "Directory send OK")
      { s with conn := { s.conn with
          controlWriteCb := some .closeDataConnectionOnWritecb
          dataTlsEventConnectedCb := some .closeDataConnectionOnWritecb } }
  else
    match s.conn.dataBev with
    | none => crash s
    | some b => bevWrite env b evbuf [] { s with conn := { s.conn with dataWriteCb := some .closeOnListcb } }

/-- `send_list_command_output`. The directory is opened once more; `readdir` of a stream that is NULL crashes. -/
def sendListCommandOutput (path : Bytes) (description hidden human : Bool) (s : Session σ) : Session σ :=
  let (dir, s) := sysOpendir env path s
  match dir with
  | none => crash s
  | some (fd, names) =>
    let (evbuf, s) := listEntries env path description hidden human names s
    sendListing env evbuf (closeFd env fd s)

/-- `tls_on_bev_event_connected` of `list.c`. -/
def listTlsOnBevEventConnected (s : Session σ) : Session σ :=
  sendListCommandOutput env s.conn.path s.conn.description s.conn.hidden s.conn.human s

/-- `close_on_listcb`. -/
def closeOnListcb (s : Session σ) : Session σ :=
  sendControlMessage env 226 (ascii "Directory send OK") (setControlWriteCb .closeDataConnectionOnWritecb s)

/-- A LIST that fails: the data connection is closed after the reply. -/
def refuseList (statusCode : Nat) (text : Bytes) (s : Session σ) : Session σ :=
  sendControlMessage env statusCode text (setControlWriteCb .closeDataConnectionOnWritecb s)

/-- The path LIST works on. -/
def listPath (flags : ListFlags) : Bytes :=
  match flags.path with
  | some (c :: cs) => cut PATH_MAX (c :: cs)
  | _ => ascii "."

/-- `handle_list_command`, from the opened directory on: its stream is not closed, nor used. -/
def startList (path : Bytes) (description : Bool) (flags : ListFlags) (s : Session σ) : Session σ :=
  if s.conn.dataTlsRequired then
    sendControlMessage env 150 (ascii "Here comes the directory listings")
      { s with conn := { s.conn with
          path := path
          description := description
          hidden := flags.all
          dataTlsEventConnectedCb := some .listTlsOnBevEventConnected
          human := flags.human } }
  else
    sendListCommandOutput env path description flags.all flags.human
      (sendControlMessage env 150 (ascii "Here comes the directory listings") s)

/-- `handle_list_command`. -/
def handleListCommand (command : CftpCommand) (description : Bool) (s : Session σ) : Session σ :=
  match parseListFlags command.args ⟨false, false, false, none⟩ with
  | none => refuseList env 501 (ascii "Failed to parse parameters") s
  | some flags =>
    if s.conn.dataBev.isNone then sendControlMessage env 425 (ascii "Cannot open data connection") s
    else if !isPathSafe (listPath flags) then refuseList env 550 (ascii "Invalid path") s
    else
      let (dir, s) := sysOpendir env (listPath flags) s
      match dir with
      | none => refuseList env 550 (ascii "Invalid path") s
      | some _ => startList env (listPath flags) description flags s

end

end CftpServer.Session
