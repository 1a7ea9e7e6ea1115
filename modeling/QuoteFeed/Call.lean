import QuoteFeed.Digits

/-!
The calls that a connection makes on the network, each with the words that describe it.
-/

namespace QuoteFeed

inductive Call where
  | stream (tls : Bool)
  | resolve (host port : Octets)
  | expiresAfter (ms : Nat)
  | expiresNever
  | connect
  | serverName (host : Octets)
  | verifyHost (host : Octets)
  | verifyPeer
  | tlsHandshake
  | clientTimeouts
  | textFrames
  | handshake (host target : Octets)
  | read
  | write (payload : Octets)
  | close
  | resolverCancel
  | cancel
  | socketClose
deriving DecidableEq

/-- The name of a call and its arguments. -/
def Call.words : Call → List Octets
  | stream tls => [octets "stream", if tls then octets "tls" else octets "plain"]
  | resolve host port => [octets "resolve", host, port]
  | expiresAfter ms => [octets "expires_after", decimal ms]
  | expiresNever => [octets "expires_never"]
  | connect => [octets "connect"]
  | serverName host => [octets "sni", host]
  | verifyHost host => [octets "verify_host", host]
  | verifyPeer => [octets "verify_mode", octets "peer"]
  | tlsHandshake => [octets "tls"]
  | clientTimeouts => [octets "timeouts", octets "client"]
  | textFrames => [octets "text", octets "true"]
  | handshake host target => [octets "handshake", host, target]
  | read => [octets "read"]
  | write payload => [octets "write", payload]
  | close => [octets "close", octets "1000"]
  | resolverCancel => [octets "resolver_cancel"]
  | cancel => [octets "cancel"]
  | socketClose => [octets "socket_close"]

end QuoteFeed
