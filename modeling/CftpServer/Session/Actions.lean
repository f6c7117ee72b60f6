import CftpServer.Session.Transfer
import CftpServer.Session.Dele
import CftpServer.Command.Table

/-!
# The command actions (`actions/command_actions.c`, `engine/command_parser.c`)

One function for each row of the command table, and `executeFtpCommand`, which parses an input and calls the function
the registry has for it.
-/

namespace CftpServer.Session

open CLib Command Security

variable {σ : Type} (env : Env σ)

/-- An action that only replies. -/
def cftpSystAction (s : Session σ) : Session σ := sendControlMessage env 215 (ascii "UNIX Type: L8") s
def cftpQuitAction (s : Session σ) : Session σ := sendControlMessage env 221 (ascii "Goodbye") s
def cftpPbszAction (s : Session σ) : Session σ := sendControlMessage env 200 (ascii "PBSZ=0") s
def cftpNoopAction (s : Session σ) : Session σ := sendControlMessage env 200 (ascii "NOOP command successful") s
def cftpInvalidAction (s : Session σ) : Session σ := sendControlMessage env 502 (ascii "Unknown command") s
def cftpNonAuthenticated (s : Session σ) : Session σ := sendControlMessage env 530 (ascii "Not logged in") s
def cftpAuthenticated (s : Session σ) : Session σ := sendControlMessage env 230 (ascii "Already logged in") s
def cftpFeatAction (s : Session σ) : Session σ :=
  sendControlMessage env 0
    (ascii "211-Features:\r\n EPSV\r\n PASV\r\n AUTH\r\n SIZE\r\n MDTM\r\n MLSD\r\n211 End") s

/-- Actions with exactly one argument; `text` is the message of the 501 reply for any other number. -/
def withArg (cmd : CftpCommand) (text : String) (action : Bytes → Session σ → Session σ) (s : Session σ) : Session σ :=
  match cmd.args with
  | [arg] => action arg s
  | _ => sendControlMessage env 501 (ascii text) s

/-- `upgrade_to_tls`: the filter starts with empty buffers, on top of the old bufferevent. -/
def upgradeToTls (s : Session σ) : Session σ :=
  let s := sendControlMessage env 234 (ascii "AUTH TLS Success") s
  if env.bufferevent s.os then
    { s with ctlIn := [], ctlOut := [], conn := { s.conn with upgradedToTls := true } }
  else crash s

def cftpAuthAction (cmd : CftpCommand) : Session σ → Session σ :=
  withArg env cmd "File path not provided" fun arg s =>
    if arg = ascii "TLS" then upgradeToTls env s else sendControlMessage env 501 (ascii "Invalid parameter") s

/-- The reply of a successful PROT. -/
def protPrivate : Effect := .reply 200 (ascii "PROT now Private")

def cftpProtAction (cmd : CftpCommand) : Session σ → Session σ :=
  withArg env cmd "File path not provided" fun arg s =>
    if arg = ascii "P" then
      sendControlMessage env 200 (ascii "PROT now Private")
        { s with conn := { s.conn with dataTlsRequired := true } }
    else sendControlMessage env 502 (ascii "Unsupported PROT level") s

def cftpTypeAuthenticatedAction (cmd : CftpCommand) : Session σ → Session σ :=
  withArg env cmd "File path not provided" fun arg s =>
    if arg = ascii "I" then
      sendControlMessage env 200 (ascii "Type set to I") { s with conn := { s.conn with transferMode := .binary } }
    else if arg = ascii "A" then
      sendControlMessage env 200 (ascii "Type set to A") { s with conn := { s.conn with transferMode := .ascii } }
    else sendControlMessage env 504 (ascii "Unsupported type") s

def cftpSizeAuthenticatedAction (cmd : CftpCommand) : Session σ → Session σ :=
  withArg env cmd "File path not provided" fun arg s =>
    if !isPathSafe arg then sendControlMessage env 550 (ascii "Invalid path") s
    else
      let (st, s) := sysStat env arg s
      match st with
      | none => sendControlMessage env 550 (ascii "File not found") s
      | some st =>
        if st.isDir then sendControlMessage env 550 (ascii "File not found") s
        else sendControlMessage env 213 (dec st.size) s

def cftpRetrAuthenticatedAction (cmd : CftpCommand) : Session σ → Session σ :=
  withArg env cmd "File path not provided" (cftpSendFile env)

def cftpStorAuthenticatedAction (cmd : CftpCommand) : Session σ → Session σ :=
  withArg env cmd "File path not provided" (cftpRecvFileWithEvbuffer env)

/-- `handle_mdtm_command`. -/
def handleMdtmCommand (arg : Bytes) (s : Session σ) : Session σ :=
  let (st, s) := sysStat env arg s
  match st with
  | none => sendControlMessage env 550 (ascii "Failed to get modification time") s
  | some st =>
    if st.isDir then sendControlMessage env 550 (ascii "Failed to get modification time") s
    else sendControlMessage env 213 (env.strftimeGmt st.mtime) s

def cftpMdtmAuthenticatedAction (cmd : CftpCommand) : Session σ → Session σ :=
  withArg env cmd "Invalid syntax in parameters" (handleMdtmCommand env)

def cftpMkdAuthenticatedAction (cmd : CftpCommand) : Session σ → Session σ :=
  withArg env cmd "Invalid syntax in parameters" fun arg s =>
    if !isPathSafe arg then sendControlMessage env 553 (ascii "File name not allowed") s
    else
      let (st, s) := sysStat env arg s
      if st.isSome then sendControlMessage env 550 (ascii "Directory already exists") s
      else
        let (made, s) := sysMkdir env arg s
        if made then sendControlMessage env 257 (ascii "Make directory successful") s
        else sendControlMessage env 550 (ascii "Failed to create directory.") s

def cftpRmdAuthenticatedAction (cmd : CftpCommand) : Session σ → Session σ :=
  withArg env cmd "Invalid syntax in parameters" fun arg s =>
    if !isPathSafe arg then sendControlMessage env 553 (ascii "File name not allowed") s
    else
      let (st, s) := sysStat env arg s
      if !(st.elim false Stat.isDir) then sendControlMessage env 550 (ascii "Directory not found") s
      else
        let (removed, s) := sysRmdir env arg s
        if removed then sendControlMessage env 250 (ascii "Remove directory successful") s
        else sendControlMessage env 550 (ascii "Failed to remove directory. Ensure it's empty.") s

/-- `handle_cwd_command`. -/
def handleCwdCommand (params : Bytes) (s : Session σ) : Session σ :=
  if params = [] then writeTextResponse env (ascii "550 Missing path.\r\n") s
  else if !isPathSafe params then sendControlMessage env 550 (ascii "Invalid path") s
  else
    let targetPath := cut PATH_MAX params
    let (st, s) := sysStat env targetPath s
    if !(st.elim false Stat.isDir) then writeTextResponse env (ascii "550 Not a directory.\r\n") s
    else
      let (ok, s) := sysChdir env targetPath s
      if ok then writeTextResponse env (ascii "250 Directory successfully changed.\r\n") s
      else writeTextResponse env (ascii "550 Failed to change directory.\r\n") s

def cftpCwdAuthenticatedAction (cmd : CftpCommand) : Session σ → Session σ :=
  withArg env cmd "Invalid syntax in parameters" fun arg s =>
    if arg ≠ [] then handleCwdCommand env arg s else sendControlMessage env 501 (ascii "Path not provided") s

def cftpPwdAuthenticatedAction (s : Session σ) : Session σ :=
  match env.getcwd s.os s.proc with
  | some cwd =>
    sendControlMessage env 257 (cut (PATH_MAX + 32) (ascii "\"" ++ cwd ++ ascii "\" is current directory")) s
  | none => sendControlMessage env 550 (ascii "Failed to get current directory") s

def cftpAborAuthenticatedAction (s : Session σ) : Session σ :=
  if s.conn.dataActive ≠ 0 then
    sendControlMessage env 451 (ascii "closed data connection; tansfer aborted") (closeDataConnection env s)
  else
    sendControlMessage env 226 (ascii "No transfer in progress") (setControlWriteCb .closeDataConnectionOnWritecb s)

/-- The 501 reply of USER and PASS: the session ends after it. -/
def refuseLogin (s : Session σ) : Session σ :=
  sendControlMessage env 501 (ascii "Invalid syntax in parameters") (setControlWriteCb .disableConnectionCb s)

/-- `cftp_user_authenticated`. -/
def cftpUserAuthenticated (cmd : CftpCommand) (s : Session σ) : Session σ :=
  match cmd.args with
  | [arg] =>
    match userExists env s.os s.proc arg with
    | some username =>
      sendControlMessage env 331 (ascii "User name okay, need password")
        { s with conn := { s.conn with username := username } }
    | none => sendControlMessage env 530 (ascii "User not found") s
  | _ => refuseLogin env s

/-- The login of a session: `authenticate_and_switch_user(connection->username, password, …)`. -/
def login (password : Bytes) (s : Session σ) : AuthResult :=
  authenticateAndSwitchUser env s.os s.proc s.conn.username password

/-- The process and the error buffer after a login. -/
def loggedIn (password : Bytes) (s : Session σ) : Session σ :=
  let r := login env password s
  { emit env (.authenticate s.conn.username password r.ok) s with
    proc := r.proc
    conn := { s.conn with errorBuf := r.errorBuf } }

/-- `cftp_pass_authenticated`. -/
def cftpPassAuthenticated (cmd : CftpCommand) (s : Session σ) : Session σ :=
  match cmd.args with
  | [arg] =>
    if (login env arg s).ok then
      let s := sendControlMessage env 230 (ascii "User logged in") (loggedIn env arg s)
      timeoutEventFree env { s with conn := { s.conn with authenticated := true } }
    else sendControlMessage env 530 (ascii "Invalid credentials") (loggedIn env arg s)
  | _ => refuseLogin env s

/-! ## Dispatch -/

/-- The function an entry of the table stands for. -/
def runAction (a : Action) (cmd : CftpCommand) : Session σ → Session σ :=
  match a with
  | .syst => cftpSystAction env
  | .quit => cftpQuitAction env
  | .auth => cftpAuthAction env cmd
  | .pbsz => cftpPbszAction env
  | .prot => cftpProtAction env cmd
  | .noop => cftpNoopAction env
  | .feat => cftpFeatAction env
  | .type => cftpTypeAuthenticatedAction env cmd
  | .epsv => dataConnectionListenerConfig env true
  | .pasv => dataConnectionListenerConfig env false
  | .nlst => handleListCommand env cmd false
  | .list => handleListCommand env cmd true
  | .size => cftpSizeAuthenticatedAction env cmd
  | .retr => cftpRetrAuthenticatedAction env cmd
  | .stor => cftpStorAuthenticatedAction env cmd
  | .mdtm => cftpMdtmAuthenticatedAction env cmd
  | .cwd => cftpCwdAuthenticatedAction env cmd
  | .pwd => cftpPwdAuthenticatedAction env
  | .abor => cftpAborAuthenticatedAction env
  | .mkd => cftpMkdAuthenticatedAction env cmd
  | .rmd => cftpRmdAuthenticatedAction env cmd
  | .dele => handleDeleCommand env cmd
  | .nonAuthenticated => cftpNonAuthenticated env
  | .user => cftpUserAuthenticated env cmd
  | .pass => cftpPassAuthenticated env cmd
  | .authenticated => cftpAuthenticated env

/-- The callback of a command: the column of its row, or none. -/
def actionFor (command : Bytes) (authenticated : Bool) : Option Action :=
  (lookupRegistry command).map fun a => if authenticated then a.authenticatedCb else a.nonAuthenticatedCb

/-- `execute_ftp_command`. -/
def executeFtpCommand (input : Bytes) (s : Session σ) : Session σ :=
  let cmd := parseTextCommand input
  match actionFor cmd.command s.conn.authenticated with
  | some a => runAction env a cmd s
  | none => cftpInvalidAction env s

end CftpServer.Session
