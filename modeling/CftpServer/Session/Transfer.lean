import CftpServer.Session.List

/-!
# RETR and STOR (`actions/retr.c`, `actions/stor.c`)

A plain download maps the whole file into the output buffer. A download with TLS is moved chunk by chunk: each time the
output has drained to its low watermark, `sendNextChunk` reads on. An upload is written to its file as it arrives.
-/

namespace CftpServer.Session

open CLib

variable {σ : Type} (env : Env σ)

def FILE_CHUNK_SIZE : Nat := 0x4000000

/-- The low watermark of a download with TLS. -/
def WRITE_LOW : Nat := 128 * 1024

/-! ## RETR -/

/-- The result of `read` on the stream: `none` for -1. -/
def readStream (fs : FileStream) (s : Session σ) : Option Bytes :=
  if fs.fd < 0 then none else env.read s.os fs.fd fs.offset FILE_CHUNK_SIZE

/-- The test of `send_next_chunk` that the file is at its end: `fs->offset + n == fs->filesize`. -/
def atEnd (fs : FileStream) (chunk : Option Bytes) : Bool :=
  (fs.offset : Int) + chunk.elim (-1) (fun bytes => (bytes.length : Int)) = (fs.filesize : Int)

/-- `send_next_chunk`. -/
def sendNextChunk (b : Nat) (s : Session σ) : Session σ :=
  match s.conn.dataStream with
  | none => crash s
  | some fs =>
    let chunk := readStream env fs s
    let s := if atEnd fs chunk then { s with conn := { s.conn with dataWriteCb := some .closeOnRetrcb } } else s
    match chunk with
    | none | some [] =>
      let s := closeFd env fs.fd s
      { s with conn := { s.conn with dataStream := some { fs with fd := -1 } } }
    | some (c :: cs) =>
      let s := bevWrite env b (c :: cs) [] s
      { s with conn := { s.conn with dataStream := some { fs with offset := fs.offset + (c :: cs).length } } }

/-- `ftp_send_file_with_evbuffer`. -/
def ftpSendFileWithEvbuffer (filepath : Bytes) (s : Session σ) : Session σ :=
  match s.conn.dataBev with
  | none => s
  | some b =>
    let (fd, s) := sysOpenRead env filepath s
    match fd with
    | none => s
    | some fd =>
      match env.fstat s.os fd with
      | none => closeFd env fd s
      | some st =>
        let s := sendControlMessage env 150 (ascii "Sending file") s
        let s := setWriteLow b WRITE_LOW
          { s with conn := { s.conn with
              dataStream := some ⟨fd, 0, st.size⟩
              dataWriteCb := some .sendNextChunk } }
        sendNextChunk env b s

/-- `ftp_send_file_plain`. -/
def ftpSendFilePlain (filepath : Bytes) (s : Session σ) : Session σ :=
  match s.conn.dataBev with
  | none => s
  | some b =>
    let (fd, s) := sysOpenRead env filepath s
    match fd with
    | none => sendControlMessage env 550 (ascii "Failed to open file") s
    | some fd =>
      match env.fstat s.os fd with
      | none => sendControlMessage env 550 (ascii "Failed to open file") (closeFd env fd s)
      | some st =>
        let s := sendControlMessage env 150 (ascii "Sending file") s
        let s := { s with conn := { s.conn with dataWriteCb := some .downloadCompletionOnPlainConnectionCb } }
        bevWrite env b (env.fileSegment s.os fd st.size) [fd] s

/-- `cftp_send_file`. -/
def cftpSendFile (params : Bytes) (s : Session σ) : Session σ :=
  if s.conn.dataTlsRequired then ftpSendFileWithEvbuffer env params s else ftpSendFilePlain env params s

/-- The end of a download: the data connection is closed once the reply is out. -/
def transferComplete (s : Session σ) : Session σ :=
  sendControlMessage env 226 (ascii "Transfer complete") (setControlWriteCb .closeDataConnectionOnWritecb s)

/-- `download_completion_on_plain_connection_cb`. -/
def downloadCompletionOnPlainConnectionCb (b : Nat) (s : Session σ) : Session σ :=
  match s.bevs b with
  | none => crash s
  | some v => if v.output = [] then transferComplete env s else s

/-- `close_on_retrcb`. -/
def closeOnRetrcb (s : Session σ) : Session σ := transferComplete env s

/-! ## STOR -/

/-- `cftp_recv_file_with_evbuffer`. -/
def cftpRecvFileWithEvbuffer (filepath : Bytes) (s : Session σ) : Session σ :=
  if s.conn.dataBev.isNone then sendControlMessage env 425 (ascii "Cannot open data connection") s
  else
    let (fd, s) := sysOpenWrite env filepath s
    match fd with
    | none =>
      sendControlMessage env 550 (ascii "Failed to open file for writing")
        (setControlWriteCb .closeDataConnectionOnWritecb s)
    | some fd =>
      let conn := { s.conn with uploadFd := fd, dataEofEventCb := some .onEofEventCb }
      let conn := if conn.dataTlsRequired then
          { conn with dataTlsEventConnectedCb := some .storTlsOnBevEventConnected }
        else { conn with dataReadCb := some .onStorRead }
      sendControlMessage env 150 (ascii "Read to receive") { s with conn := conn }

/-- `tls_on_bev_event_connected` of `stor.c`. -/
def storTlsOnBevEventConnected (s : Session σ) : Session σ :=
  { s with conn := { s.conn with dataReadCb := some .onStorRead } }

/-- One `evbuffer_write` of the input of a bufferevent: what is written leaves the buffer. -/
def evbufferWrite (b : Nat) (v : Bev) (s : Session σ) : Session σ :=
  let n := if s.conn.uploadFd < 0 then none else env.evbufferWrite s.os s.conn.uploadFd v.input
  let n := n.getD 0
  emit env (.store b v.tls s.conn.uploadFd (v.input.take n))
    { s with bevs := Function.update s.bevs b (some { v with input := v.input.drop n }) }

/-- `while (evbuffer_get_length(input) > 0) evbuffer_write(input, connection->upload_fd);` -/
def drainInput (b : Nat) : Nat → Session σ → Session σ
  | 0, s => hang s
  | fuel + 1, s =>
    match s.bevs b with
    | none => crash s
    | some v => if v.input = [] then s else drainInput b fuel (evbufferWrite env b v s)

/-- `on_stor_read`. -/
def onStorRead (b : Nat) (s : Session σ) : Session σ := drainInput env b env.spin s

/-- `on_eof_event_cb`. The input drained is that of the current data connection, whichever one has ended. -/
def onEofEventCb (s : Session σ) : Session σ :=
  match s.conn.dataBev with
  | none => s
  | some d =>
    if s.conn.uploadFd ≥ 0 then
      (drainInput env d env.spin s).andThen fun s =>
        let s := closeFd env s.conn.uploadFd s
        sendControlMessage env 226 (ascii "Transfer complete") { s with conn := { s.conn with uploadFd := -1 } }
    else sendControlMessage env 452 (ascii "An error occurred") s

end CftpServer.Session
