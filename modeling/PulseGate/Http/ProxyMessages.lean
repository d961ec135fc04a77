import PulseGate.Http.HttpMessage

namespace PulseGate

/-!
# The messages of the reverse proxy

The free functions of `reverse_proxy.cpp`: what is sent upstream, what is kept of an upstream
response, how it is streamed downstream, and the responses for the proxy's own errors.
-/

structure UpstreamEndpoint where
  host : Bytes
  service : Bytes
  deriving DecidableEq, Repr

/-- What the handlers use of the `RequestContext` that `HttpSession::run` makes. -/
structure RequestContext where
  requestId : Bytes
  /-- The address of the peer, `none` when it is unspecified. -/
  peer : Option Bytes
  /-- `write_downstream` is set. -/
  writeDownstream : Bool
  bufferResponseForCache : Bool := false
  deriving DecidableEq, Repr

/-- The names `hopByHop` has in `fixed`. -/
def fixedHopByHop : List Bytes :=
  [bytes "connection", bytes "keep-alive", bytes "proxy-authenticate",
   bytes "proxy-authorization", bytes "te", bytes "trailer", bytes "transfer-encoding",
   bytes "upgrade"]

/-- The names `hopByHop` adds, because the proxy writes these headers itself. -/
def rewrittenHeaders : List Bytes :=
  [bytes "host", bytes "content-length", bytes "x-forwarded-for", bytes "x-forwarded-proto",
   bytes "x-request-id"]

def hopByHop (header : Header) (all : Headers) : Bool :=
  fixedHopByHop.contains header.name ||
    ((all.values (bytes "connection")).any fun value => containsToken value header.name) ||
    rewrittenHeaders.contains header.name

/-- The headers that are passed on, in their order. -/
def Headers.passedOn (h : Headers) : List Header := h.entries.filter fun e => !hopByHop e h

/-- `authority`. -/
def authority (upstream : UpstreamEndpoint) : Bytes :=
  if !upstream.host.contains 58 then upstream.host ++ bytes ":" ++ upstream.service
  else bytes "[" ++ upstream.host ++ bytes "]:" ++ upstream.service

def serializeUpstreamRequest (request : HttpRequest) (upstream : UpstreamEndpoint)
    (context : RequestContext) : Bytes :=
  request.method.name ++ bytes " " ++
    (if request.target.isEmpty then bytes "/" else request.target) ++ bytes " HTTP/1.1\r\n" ++
    request.headers.passedOn.flatMap Header.line ++
    bytes "Host: " ++ authority upstream ++ bytes "\r\n" ++
    bytes "X-Forwarded-For: " ++ context.peer.getD (bytes "unknown") ++
    bytes "\r\nX-Forwarded-Proto: http\r\nX-Request-Id: " ++ context.requestId ++
    bytes "\r\nContent-Length: " ++ toChars 10 request.body.length ++
    bytes "\r\nConnection: keep-alive\r\n\r\n" ++ request.body

def sanitizeUpstreamResponse (response : HttpResponse) : HttpResponse :=
  { statusCode := response.statusCode
    reason := response.reason
    body := response.body
    closeConnection := response.closeConnection
    headers := response.headers.passedOn.foldl (fun h e => h.add e.name e.value) {} }

/-- The headers `serializeStreamingHead` writes from the response. -/
def HttpResponse.streamedHeaders (r : HttpResponse) : List Header :=
  r.headers.entries.filter fun h =>
    !(h.name = bytes "content-length" ∨ h.name = bytes "connection" ∨
      h.name = bytes "transfer-encoding")

def serializeStreamingHead (response : HttpResponse) (requestId : Bytes) : Bytes :=
  response.statusLine ++ response.streamedHeaders.flatMap Header.line ++
    bytes "X-Request-Id: " ++ requestId ++
    bytes "\r\nTransfer-Encoding: chunked\r\nConnection: keep-alive\r\n\r\n"

def chunkFrame (payload : Bytes) : Bytes :=
  toChars 16 payload.length ++ bytes "\r\n" ++ payload ++ bytes "\r\n"

/-- The frame that ends a streamed response. -/
def lastChunkFrame : Bytes := bytes "0\r\n\r\n"

inductive ProxyError
  | None
  | DnsFailure
  | ConnectFailure
  | ConnectTimeout
  | ResponseTimeout
  | UpstreamProtocol
  | UpstreamBodyTooLarge
  | NoHealthyUpstream
  | CircuitOpen
  | Overloaded
  | Cancelled
  | UnsupportedRequest
  deriving DecidableEq, Repr

/-- One of the responses of `makeProxyErrorResponse`. -/
def proxyErrorResponse (statusCode : Int) (reason body : String) : HttpResponse :=
  { statusCode := statusCode, reason := bytes reason, body := bytes body,
    headers := ({} : Headers).add (bytes "Content-Type") (bytes "text/plain") }

def makeProxyErrorResponse : ProxyError → HttpResponse
  | .DnsFailure | .ConnectFailure | .UpstreamProtocol | .UpstreamBodyTooLarge =>
    proxyErrorResponse 502 "Bad Gateway" "bad gateway\n"
  | .ConnectTimeout | .ResponseTimeout =>
    proxyErrorResponse 504 "Gateway Timeout" "gateway timeout\n"
  | .Cancelled =>
    proxyErrorResponse 503 "Service Unavailable" "upstream transaction cancelled\n"
  | .NoHealthyUpstream => proxyErrorResponse 503 "Service Unavailable" "no healthy upstream\n"
  | .CircuitOpen => proxyErrorResponse 503 "Service Unavailable" "upstream circuit is open\n"
  | .Overloaded => proxyErrorResponse 503 "Service Unavailable" "gateway is overloaded\n"
  | .UnsupportedRequest =>
    proxyErrorResponse 501 "Not Implemented" "upstream upgrade is not supported\n"
  | .None => {}

structure ProxyResult where
  error : ProxyError := .None
  response : HttpResponse := {}
  upstream : UpstreamEndpoint
  reusable : Bool := false
  upstreamStatus : Int := 0
  deriving DecidableEq, Repr

def streamedCloseResult (upstream : UpstreamEndpoint) : ProxyResult :=
  { response := { closeConnection := true, alreadyWritten := true }, upstream := upstream }

end PulseGate
