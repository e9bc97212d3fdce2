import WsServer.Model.HttpParser

/-!
# The request handler of the server

`server.h`, `server.cpp`: the handler that `attachConnection` gives to every
connection.  It answers a few fixed paths itself and serves everything else from
the files below the document root.

The file system is a parameter.  An `Answer` also lists the paths that were
passed to it, as the system calls see them: up to the first NUL.
-/

namespace WsServer

open CString

/-- `s.rfind(c)`; `none` is `npos`. -/
def rfind (c : UInt8) (s : Bytes) : Option ℕ := (find c s.reverse).map (s.length - 1 - ·)

/-- What the server asks of the file system. -/
structure FileSystem where
  /-- `stat` succeeds and `S_ISREG` holds. -/
  isRegular : Bytes → Bool
  /-- The content, when an `ifstream` on the path opens. -/
  read : Bytes → Option Bytes

/-- A path passed to the file system. -/
inductive FileAccess
  | stat (path : Bytes)
  | ifstream (path : Bytes)
  deriving DecidableEq

def FileAccess.path : FileAccess → Bytes
  | .stat path => path
  | .ifstream path => path

namespace Server

structure Options where
  docRoot : Bytes := bytes "./www"

structure Stats where
  accepted : UInt64 := 0
  requests : UInt64 := 0
  responses : UInt64 := 0
  errors : UInt64 := 0
  timeoutsClosed : UInt64 := 0
  bytesRead : UInt64 := 0
  bytesWritten : UInt64 := 0
  activeConnections : Int64 := 0
  pendingTimers : UInt64 := 0

/-- A response, and the files looked at for it. -/
structure Answer where
  response : HttpResponse
  accesses : List FileAccess := []

def contentTypeOf (path : Bytes) : Bytes :=
  match rfind 46 path with
  | none => bytes "application/octet-stream"
  | some dot =>
    let ext := path.drop dot
    if ext = bytes ".html" || ext = bytes ".htm" then bytes "text/html; charset=utf-8"
    else if ext = bytes ".css" then bytes "text/css; charset=utf-8"
    else if ext = bytes ".js" then bytes "application/javascript; charset=utf-8"
    else if ext = bytes ".json" then bytes "application/json; charset=utf-8"
    else if ext = bytes ".txt" then bytes "text/plain; charset=utf-8"
    else if ext = bytes ".png" then bytes "image/png"
    else if ext = bytes ".jpg" || ext = bytes ".jpeg" then bytes "image/jpeg"
    else if ext = bytes ".svg" then bytes "image/svg+xml"
    else bytes "application/octet-stream"

/-- The path below the document root that a request asks for. -/
def relativePath (request : HttpRequest) : Bytes :=
  if request.path = bytes "/" then bytes "/index.html" else request.path

def serveStatic (opts : Options) (files : FileSystem) (request : HttpRequest)
    (response : HttpResponse) : Answer :=
  let rel := relativePath request
  -- the guard against directory traversal: no `..` anywhere in the path
  if (PairSearch.findPair 46 46 rel).isSome then
    { response := HttpResponse.make 403 (bytes "403 Forbidden\n") HttpResponse.textPlain }
  else
    let full := opts.docRoot ++ rel
    let path := cStr full
    if !files.isRegular path then
      { response := HttpResponse.make 404 (bytes "404 Not Found\n") HttpResponse.textPlain
        accesses := [.stat path] }
    else
      match files.read path with
      | none =>
        { response := HttpResponse.make 404 (bytes "404 Not Found\n") HttpResponse.textPlain
          accesses := [.stat path, .ifstream path] }
      | some data =>
        let response := { response with status := 200, body := data }
        { response := (response.setHeader (bytes "Content-Type") (contentTypeOf full)).setHeader
            (bytes "Content-Length") (natToString data.length)
          accesses := [.stat path, .ifstream path] }

/-- The JSON text for `/stats`: `snprintf` into 512 bytes. -/
def statsText (s : Stats) : Bytes :=
  (bytes "\x7b\"accepted\":" ++ natToString s.accepted.toNat ++
    bytes ",\"requests\":" ++ natToString s.requests.toNat ++
    bytes ",\"responses\":" ++ natToString s.responses.toNat ++
    bytes ",\"errors\":" ++ natToString s.errors.toNat ++
    bytes ",\"timeouts_closed\":" ++ natToString s.timeoutsClosed.toNat ++
    bytes ",\"bytes_read\":" ++ natToString s.bytesRead.toNat ++
    bytes ",\"bytes_written\":" ++ natToString s.bytesWritten.toNat ++
    bytes ",\"active_connections\":" ++ intToString s.activeConnections.toInt ++
    bytes ",\"pending_timers\":" ++ natToString s.pendingTimers.toNat ++
    bytes "\x7d\n").take 511

/-- What the path and the method of a request select. -/
def dispatch (opts : Options) (files : FileSystem) (snapshot : Stats) (request : HttpRequest)
    (response : HttpResponse) : Answer :=
  let getLike := request.method = bytes "GET" || request.method = bytes "HEAD"
  if request.path = bytes "/stats" then
    { response := HttpResponse.make 200 (statsText snapshot)
        (bytes "application/json; charset=utf-8") }
  else if request.path = bytes "/echo" then
    if request.method = bytes "POST" || request.method = bytes "PUT" then
      { response := HttpResponse.make 200 request.body (bytes "text/plain; charset=utf-8") }
    else
      { response :=
          HttpResponse.make 405 (bytes "405 Method Not Allowed\n") HttpResponse.textPlain }
  else if getLike && (request.path = bytes "/hello" || request.path = bytes "/healthz") then
    { response := HttpResponse.make 200 (bytes "Hello from ws-server\n") HttpResponse.textPlain }
  else if getLike then serveStatic opts files request response
  else
    { response :=
        HttpResponse.make 405 (bytes "405 Method Not Allowed\n") HttpResponse.textPlain }

/-- `HEAD` gets the headers of `GET`, the length of the body included, and no body. -/
def withoutBody (response : HttpResponse) : HttpResponse :=
  { response.setHeader (bytes "Content-Length") (natToString response.body.length) with body := [] }

def handleRequest (opts : Options) (files : FileSystem) (snapshot : Stats)
    (request : HttpRequest) (response : HttpResponse) : Answer :=
  let answer := dispatch opts files snapshot request response
  let response := answer.response.setHeader (bytes "Server") (bytes "ws-server/1.0")
  { answer with
    response := if request.method = bytes "HEAD" then withoutBody response else response }

end Server

end WsServer
