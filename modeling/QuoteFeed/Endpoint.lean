import QuoteFeed.Digits

/-!
Addresses of a feed: `ws` or `wss`, a host, a port and a target.
-/

namespace QuoteFeed

structure Endpoint where
  tls : Bool
  host : Octets
  port : Octets
  target : Octets
deriving DecidableEq

namespace Endpoint

/-- Why a text is no address. The whole address comes last. -/
inductive Error where
  | noScheme (url : Octets)
  | unsupportedScheme (scheme : Octets)
  | unclosedHost (url : Octets)
  | malformedAuthority (url : Octets)
  | noHost (url : Octets)
  | invalidPort (port url : Octets)
deriving DecidableEq

def Error.message : Error → Octets
  | noScheme url => octets "endpoint URL has no scheme: '" ++ url ++ octets "'"
  | unsupportedScheme scheme =>
    octets "unsupported endpoint scheme '" ++ scheme ++ octets "' (expected ws or wss)"
  | unclosedHost url => octets "malformed IPv6 host in '" ++ url ++ octets "'"
  | malformedAuthority url => octets "malformed authority in '" ++ url ++ octets "'"
  | noHost url => octets "endpoint URL has no host: '" ++ url ++ octets "'"
  | invalidPort port url => octets "invalid port '" ++ port ++ octets "' in '" ++ url ++ octets "'"

/-- Whether a scheme, in lower case, asks for encryption. -/
def tlsOfScheme? (scheme : Octets) : Option Bool :=
  if scheme = octets "wss" then some true else if scheme = octets "ws" then some false else none

/-- Host and port of an authority: a host in brackets may hold colons, any other ends at the last one. -/
def splitAuthority (url authority : Octets) : Except Error (Octets × Octets) :=
  match authority with
  | Ascii.openBracket :: inner =>
    match Octets.splitFirst? [Ascii.closeBracket] inner with
    | none => throw (.unclosedHost url)
    | some (host, []) => pure (host, [])
    | some (host, Ascii.colon :: port) => pure (host, port)
    | some _ => throw (.malformedAuthority url)
  | _ => pure ((Octets.splitLast? Ascii.colon authority).getD (authority, []))

/-- Whether a text is a port: digits only, standing for 1 to 65535. -/
def isPort (port : Octets) : Bool :=
  !port.isEmpty && port.all isDigit && 1 ≤ digitsValue port && digitsValue port ≤ 65535

/-- The port of a connection when the address has none. -/
def defaultPort (tls : Bool) : Octets := if tls then octets "443" else octets "80"

def parse (url : Octets) : Except Error Endpoint := do
  let some (scheme, rest) := Octets.splitFirst? (octets "://") url | throw (.noScheme url)
  let some tls := tlsOfScheme? scheme.lower | throw (.unsupportedScheme scheme.lower)
  let authority := rest.takeWhile (· ≠ Ascii.slash)
  let path := rest.dropWhile (· ≠ Ascii.slash)
  let (host, port) ← splitAuthority url authority
  if host.isEmpty then throw (.noHost url)
  if !port.isEmpty && !isPort port then throw (.invalidPort port url)
  pure {
    tls, host
    port := if port.isEmpty then defaultPort tls else port
    target := if path.isEmpty then octets "/" else path }

/-- Writes an address; a host with a colon stands in brackets. -/
def url (e : Endpoint) : Octets :=
  (if e.tls then octets "wss://" else octets "ws://")
    ++ (if e.host.contains Ascii.colon then Ascii.openBracket :: e.host ++ [Ascii.closeBracket] else e.host)
    ++ Ascii.colon :: e.port ++ e.target

end Endpoint

end QuoteFeed
