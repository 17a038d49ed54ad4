import FingerprintLab.Capture.Analyze

/-!
# The ClientHello of RFC 8446 and its encoding

The specification side of the parser: what a client means, and the bytes it sends.  `ClientHello`
carries the bounds of its length fields, so every value of it has an encoding.

* `Extension`        the five extensions that the lab reads with their typed content, and any other
                     extension with arbitrary bytes;
* `HelloFields`      the content of a ClientHello with its `body`, `handshake` and `record`;
* `ClientHello`      the fields together with the proof that they fit their length fields.
-/

set_option linter.unusedVariables false

namespace Capture
open Go

/-- the extension ids that carry typed content -/
def typedIDs : List UInt16 := [0x0000, 0x000a, 0x000d, 0x0010, 0x002b]

inductive Extension where
  | serverName (host : Bytes)
  | supportedGroups (groups : List UInt16)
  | signatureAlgorithms (sigs : List UInt16)
  | alpn (names : List Bytes)
  | supportedVersions (versions : List UInt16)
  | other (eid : UInt16) (data : Bytes) (untyped : eid ∉ typedIDs)

namespace Extension

def id : Extension → UInt16
  | .serverName _ => 0x0000
  | .supportedGroups _ => 0x000a
  | .signatureAlgorithms _ => 0x000d
  | .alpn _ => 0x0010
  | .supportedVersions _ => 0x002b
  | .other eid _ _ => eid

/-- `extension_data`; a server name list holds one entry of type `host_name` -/
def data : Extension → Bytes
  | .serverName host => vec16 (0x00 :: vec16 host)
  | .supportedGroups groups => vec16 (words groups)
  | .signatureAlgorithms sigs => vec16 (words sigs)
  | .alpn names => vec16 (names.flatMap vec8)
  | .supportedVersions versions => vec8 (words versions)
  | .other _ data _ => data

def encode (e : Extension) : Bytes := be16 e.id.toNat ++ vec16 e.data

/-! the content of each kind, if the extension is of that kind -/

def host? : Extension → Option Bytes
  | .serverName host => some host
  | _ => none

def groups? : Extension → Option (List UInt16)
  | .supportedGroups groups => some groups
  | _ => none

def sigs? : Extension → Option (List UInt16)
  | .signatureAlgorithms sigs => some sigs
  | _ => none

def names? : Extension → Option (List Bytes)
  | .alpn names => some names
  | _ => none

def versions? : Extension → Option (List UInt16)
  | .supportedVersions versions => some versions
  | _ => none

theorem id_of_host (e : Extension) (h : e.host? ≠ none) : e.id = 0x0000 := by
  cases e <;> first | rfl | exact absurd rfl h

theorem id_of_groups (e : Extension) (h : e.groups? ≠ none) : e.id = 0x000a := by
  cases e <;> first | rfl | exact absurd rfl h

theorem id_of_sigs (e : Extension) (h : e.sigs? ≠ none) : e.id = 0x000d := by
  cases e <;> first | rfl | exact absurd rfl h

theorem id_of_names (e : Extension) (h : e.names? ≠ none) : e.id = 0x0010 := by
  cases e <;> first | rfl | exact absurd rfl h

theorem id_of_versions (e : Extension) (h : e.versions? ≠ none) : e.id = 0x002b := by
  cases e <;> first | rfl | exact absurd rfl h

/-- what the one-byte length fields can hold -/
def Fits : Extension → Prop
  | .alpn names => ∀ name ∈ names, name.length < 256
  | .supportedVersions versions => 2 * versions.length < 256
  | _ => True

end Extension

/-- the content of a ClientHello; `none` is a hello without extension block -/
structure HelloFields where
  version : UInt16
  random : Bytes
  sessionID : Bytes
  ciphers : List UInt16
  compression : Bytes
  block : Option (List Extension)

namespace HelloFields

def exts (h : HelloFields) : List Extension := h.block.getD []

def extIDs (h : HelloFields) : List UInt16 := h.exts.map Extension.id

/-- the first extension of each kind; the list is empty when the hello has none -/
def sni (h : HelloFields) : Bytes := (h.exts.findSome? Extension.host?).getD []
def groups (h : HelloFields) : List UInt16 := (h.exts.findSome? Extension.groups?).getD []
def sigs (h : HelloFields) : List UInt16 := (h.exts.findSome? Extension.sigs?).getD []
def alpn (h : HelloFields) : List Bytes := (h.exts.findSome? Extension.names?).getD []
def versions (h : HelloFields) : List UInt16 := (h.exts.findSome? Extension.versions?).getD []

/-- everything in front of the extension block -/
def front (h : HelloFields) : Bytes :=
  be16 h.version.toNat ++ h.random ++ vec8 h.sessionID ++ vec16 (words h.ciphers)
    ++ vec8 h.compression

def back (h : HelloFields) : Bytes :=
  match h.block with
  | none => []
  | some es => vec16 (es.flatMap Extension.encode)

def body (h : HelloFields) : Bytes := h.front ++ h.back

def handshake (h : HelloFields) : Bytes := [0x01] ++ be24 h.body.length ++ h.body

/-- the TLS record that carries the handshake message and `trailing` bytes after it -/
def record (h : HelloFields) (recVer : UInt16) (trailing : Bytes) : Bytes :=
  [0x16] ++ be16 recVer.toNat ++ vec16 (h.handshake ++ trailing)

theorem front_length (h : HelloFields) : h.front.length
    = 2 + h.random.length + (1 + h.sessionID.length) + (2 + 2 * h.ciphers.length)
      + (1 + h.compression.length) := by
  simp [front]
  omega

end HelloFields

/-- a ClientHello whose parts fit their length fields and which fits in one record -/
structure ClientHello extends HelloFields where
  random_length : random.length = 32
  sessionID_fits : sessionID.length < 256
  compression_fits : compression.length < 256
  exts_fit : ∀ e ∈ toHelloFields.exts, e.Fits
  fits : toHelloFields.handshake.length < 65536

namespace ClientHello

theorem body_lt (h : ClientHello) : h.body.length + 4 < 65536 := by
  have hf := h.fits
  simp [HelloFields.handshake] at hf
  omega

theorem front_le (h : ClientHello) : h.front.length ≤ h.body.length := by
  rw [HelloFields.body, List.length_append]
  omega

end ClientHello

end Capture
