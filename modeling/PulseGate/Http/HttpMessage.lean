import PulseGate.Http.Headers

namespace PulseGate

/-!
# Requests and responses

The structures of `http_request.h` and `http_response.h`, and `HttpResponse::serialize`.
-/

inductive HttpMethod
  | Get
  | Head
  | Post
  | Put
  | Delete
  | Options
  | Unknown
  deriving DecidableEq, Repr

/-- `methodName`. -/
def HttpMethod.name : HttpMethod → Bytes
  | .Get => bytes "GET"
  | .Head => bytes "HEAD"
  | .Post => bytes "POST"
  | .Put => bytes "PUT"
  | .Delete => bytes "DELETE"
  | .Options => bytes "OPTIONS"
  | .Unknown => bytes "UNKNOWN"

def parseHttpMethod (method : Bytes) : HttpMethod :=
  if method = bytes "GET" then .Get
  else if method = bytes "HEAD" then .Head
  else if method = bytes "POST" then .Post
  else if method = bytes "PUT" then .Put
  else if method = bytes "DELETE" then .Delete
  else if method = bytes "OPTIONS" then .Options
  else .Unknown

/-- The name of a method is read as the method. -/
theorem parseHttpMethod_name (method : HttpMethod) : parseHttpMethod method.name = method := by
  cases method <;> decide

structure HttpRequest where
  method : HttpMethod := .Unknown
  target : Bytes := []
  versionMajor : Int := 1
  versionMinor : Int := 1
  headers : Headers := {}
  body : Bytes := []
  deriving DecidableEq, Repr

structure HttpResponse where
  statusCode : Int := 200
  reason : Bytes := bytes "OK"
  headers : Headers := {}
  body : Bytes := []
  closeConnection : Bool := false
  alreadyWritten : Bool := false
  deriving DecidableEq, Repr

namespace HttpResponse

/-- The status line. -/
def statusLine (r : HttpResponse) : Bytes :=
  bytes "HTTP/1.1 " ++ intToString r.statusCode ++ bytes " " ++ r.reason ++ crlf

/-- The headers `serialize` writes from the response. -/
def ownHeaders (r : HttpResponse) : List Header :=
  r.headers.entries.filter fun h => !(h.name = bytes "content-length" ∨ h.name = bytes "connection")

/-- `HttpResponse::serialize`. -/
def serialize (r : HttpResponse) (headRequest : Bool) : Except Exception Bytes :=
  if r.statusCode < 100 ∨ 999 < r.statusCode ∨ r.reason.isEmpty ∨ !isValidHeaderValue r.reason then
    .error .InvalidArgument
  else if r.ownHeaders.any fun h => !(isValidHeaderName h.name && isValidHeaderValue h.value) then
    .error .InvalidArgument
  else
    .ok (r.statusLine ++ r.ownHeaders.flatMap Header.line ++ bytes "Content-Length: " ++
      toChars 10 r.body.length ++ bytes "\r\nConnection: " ++
      (if r.closeConnection then bytes "close" else bytes "keep-alive") ++ bytes "\r\n\r\n" ++
      if headRequest then [] else r.body)

end HttpResponse
end PulseGate
