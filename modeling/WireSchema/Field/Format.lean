import WireSchema.Rule
import WireSchema.Violation

/-!
# Formats

The well-known formats of texts and byte strings. A field carries at most one; naming the same one
twice is harmless.
-/

namespace WireSchema

inductive Format where
  | email
  | hostname
  | ip
  | ipv4
  | ipv6
  | uri
  | uriRef
  | address
  | uuid
  | tuuid
  | ipWithPrefixlen
  | ipv4WithPrefixlen
  | ipv6WithPrefixlen
  | ipNetwork
  | ipv4Network
  | ipv6Network
  | hostAndPort
  | httpHeaderName
  | httpHeaderValue
deriving DecidableEq, Repr

namespace Format

def all : List Format :=
  [email, hostname, ip, ipv4, ipv6, uri, uriRef, address, uuid, tuuid, ipWithPrefixlen,
   ipv4WithPrefixlen, ipv6WithPrefixlen, ipNetwork, ipv4Network, ipv6Network, hostAndPort,
   httpHeaderName, httpHeaderValue]

/-- The name of the format in reports and declarations. -/
def name : Format → String
  | email => "email"
  | hostname => "hostname"
  | ip => "ip"
  | ipv4 => "ipv4"
  | ipv6 => "ipv6"
  | uri => "uri"
  | uriRef => "uri_ref"
  | address => "address"
  | uuid => "uuid"
  | tuuid => "tuuid"
  | ipWithPrefixlen => "ip_with_prefixlen"
  | ipv4WithPrefixlen => "ipv4_with_prefixlen"
  | ipv6WithPrefixlen => "ipv6_with_prefixlen"
  | ipNetwork => "ip_prefix"
  | ipv4Network => "ipv4_prefix"
  | ipv6Network => "ipv6_prefix"
  | hostAndPort => "host_and_port"
  | httpHeaderName => "http_header_name"
  | httpHeaderValue => "http_header_value"

/-- The rule that states the format. Both header formats share one rule. -/
def ruleName : Format → String
  | httpHeaderName | httpHeaderValue => "well_known_regex"
  | f => f.name

def value : Format → Literal
  | httpHeaderName => .ident "KNOWN_REGEX_HTTP_HEADER_NAME"
  | httpHeaderValue => .ident "KNOWN_REGEX_HTTP_HEADER_VALUE"
  | _ => .bool true

/-- More than one distinct format is named. -/
def violations (formats : List Format) : List Violation :=
  let distinct := formats.eraseDups
  if 1 < distinct.length then [.multipleFormats (", ".intercalate (distinct.map name))] else []

/-- The rule of the first format named. -/
def rules (group : String) (formats : List Format) : List Rule :=
  (formats.head?.map fun f => ⟨[group, f.ruleName], f.value⟩).toList

end Format
end WireSchema
