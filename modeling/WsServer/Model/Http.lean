import WsServer.Lib.CString
import WsServer.Lib.SortedMap

/-!
# Requests and responses

`http.h`, `http.cpp`: the request record filled by the parser, the response
record filled by a handler, and the serialization of a response.  Header maps
are ordered by key, as `std::map` is; the parser stores lower-case keys, a
handler stores keys as it writes them.
-/

namespace WsServer

open CString

/-- Equality of strings up to letter case. -/
def iequals (a b : Bytes) : Bool :=
  if a.length ≠ b.length then false
  else (a.zip b).all fun pair => tolower pair.1 = tolower pair.2

theorem iequals_iff (a b : Bytes) : iequals a b = true ↔ a.map tolower = b.map tolower := by
  induction a generalizing b with
  | nil => cases b <;> simp [iequals]
  | cons x a ih =>
      cases b with
      | nil => simp [iequals]
      | cons y b =>
          have := ih b
          simp only [iequals] at this ⊢
          by_cases hlen : a.length = b.length
          · simp only [hlen, ne_eq, not_true_eq_false, if_false] at this
            simp [hlen, ← this]
          · have hne : a.map tolower ≠ b.map tolower := fun h =>
              hlen (by simpa using congrArg List.length h)
            simp [hlen, hne]

/-! ## Requests -/

abbrev HeaderMap := SortedMap Bytes Bytes

structure HttpRequest where
  method : Bytes := []
  path : Bytes := []
  query : Bytes := []
  version : Bytes := []
  headers : HeaderMap := ∅
  body : Bytes := []
  deriving DecidableEq

namespace HttpRequest

/-- The value stored under a lower-case key, or the empty string. -/
def getHeader (request : HttpRequest) (key : Bytes) : Bytes :=
  match request.headers.find? key with
  | none => []
  | some value => value

/-- HTTP/1.0 closes unless asked to keep the connection, later versions keep it
unless asked to close. -/
def keepAlive (request : HttpRequest) : Bool :=
  let conn := request.getHeader (bytes "connection")
  if request.version = bytes "HTTP/1.0" then iequals conn (bytes "keep-alive")
  else !iequals conn (bytes "close")

def clear (request : HttpRequest) : HttpRequest :=
  { request with method := [], path := [], query := [], version := [], headers := ∅, body := [] }

@[simp] theorem clear_eq (request : HttpRequest) : request.clear = {} := rfl

end HttpRequest

/-! ## Responses -/

structure HttpResponse where
  status : ℤ := 200
  reason : Bytes := []
  headers : HeaderMap := ∅
  body : Bytes := []
  closeConnection : Bool := false
  deriving DecidableEq

namespace HttpResponse

def reasonPhrase (status : ℤ) : Bytes :=
  match status with
  | 100 => bytes "Continue"
  | 200 => bytes "OK"
  | 201 => bytes "Created"
  | 204 => bytes "No Content"
  | 301 => bytes "Moved Permanently"
  | 302 => bytes "Found"
  | 304 => bytes "Not Modified"
  | 400 => bytes "Bad Request"
  | 403 => bytes "Forbidden"
  | 404 => bytes "Not Found"
  | 405 => bytes "Method Not Allowed"
  | 408 => bytes "Request Timeout"
  | 411 => bytes "Length Required"
  | 413 => bytes "Payload Too Large"
  | 414 => bytes "URI Too Long"
  | 431 => bytes "Request Header Fields Too Large"
  | 500 => bytes "Internal Server Error"
  | 501 => bytes "Not Implemented"
  | 503 => bytes "Service Unavailable"
  | _ => bytes "Unknown"

/-- The content type `make` uses when none is given. -/
def textPlain : Bytes := bytes "text/plain; charset=utf-8"

def setHeader (response : HttpResponse) (key value : Bytes) : HttpResponse :=
  { response with headers := response.headers.insert key value }

def make (status : ℤ) (body contentType : Bytes) : HttpResponse :=
  HttpResponse.setHeader { status := status, body := body } (bytes "Content-Type") contentType

/-- One header line with its terminator. -/
def headerText (entry : Bytes × Bytes) : Bytes :=
  entry.1 ++ bytes ": " ++ entry.2 ++ bytes "\r\n"

/-- The message on the wire.  Without a `Content-Length` header one is added
that states the length of the body. -/
def toString (response : HttpResponse) : Bytes :=
  bytes "HTTP/1.1 " ++ intToString response.status ++ bytes " " ++
    (if response.reason.isEmpty then reasonPhrase response.status else response.reason) ++
    bytes "\r\n" ++
    response.headers.entries.flatMap headerText ++
    (if (response.headers.find? (bytes "Content-Length")).isNone then
      headerText (bytes "Content-Length", natToString response.body.length)
    else []) ++
    bytes "\r\n" ++ response.body

theorem toString_ne_nil (response : HttpResponse) : response.toString ≠ [] := by
  have hstart : bytes "HTTP/1.1 " ≠ [] := by decide
  simp [toString, hstart]

end HttpResponse

end WsServer
