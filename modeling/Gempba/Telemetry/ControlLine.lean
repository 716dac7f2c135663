import Gempba.Library.Json
import Gempba.Telemetry.Frames
import Gempba.Telemetry.Hub
import Mathlib.Algebra.Group.Nat.Defs

/-!
# The reader of control lines

A field is located by a search for its quoted name and a colon; a position in
the line is given by the rest of the line from it on.
-/

namespace Gempba.Telemetry

set_option autoImplicit false

open Json (bytes QUOTE BACKSLASH COLON)

/-- `std::isspace` in the C locale. -/
def isspace (c : UInt8) : Bool := c = 0x20 || (0x09 ≤ c && c ≤ 0x0D)

def isdigit (c : UInt8) : Bool := 0x30 ≤ c && c ≤ 0x39

def trim (s : Bytes) : Bytes := ((s.dropWhile isspace).reverse.dropWhile isspace).reverse

def find (pattern : Bytes) : Bytes → Option Bytes
  | [] => if pattern = [] then some [] else none
  | c :: s => if pattern <+: c :: s then some (c :: s) else find pattern s

def fieldPattern (name : Bytes) : Bytes := QUOTE :: name ++ [QUOTE, COLON]

def findFieldValue (line name : Bytes) : Option Bytes :=
  (find (fieldPattern name) line).map fun rest =>
    (rest.drop (fieldPattern name).length).dropWhile isspace

def hexValue (c : UInt8) : Option ℕ :=
  if 0x30 ≤ c ∧ c ≤ 0x39 then some (c.toNat - 0x30)
  else if 0x41 ≤ c ∧ c ≤ 0x46 then some (c.toNat - 0x37)
  else if 0x61 ≤ c ∧ c ≤ 0x66 then some (c.toNat - 0x57)
  else none

def parseHex4 (a b c d : UInt8) : Option ℕ :=
  match hexValue a, hexValue b, hexValue c, hexValue d with
  | some a, some b, some c, some d => some (((a * 16 + b) * 16 + c) * 16 + d)
  | _, _, _, _ => none

def appendUtf8 (codePoint : ℕ) : Bytes :=
  if codePoint < 0x80 then [UInt8.ofNat codePoint]
  else if codePoint < 0x800 then
    [UInt8.ofNat (0xC0 + codePoint / 2 ^ 6), UInt8.ofNat (0x80 + codePoint % 2 ^ 6)]
  else if codePoint < 0x10000 then
    [UInt8.ofNat (0xE0 + codePoint / 2 ^ 12), UInt8.ofNat (0x80 + codePoint / 2 ^ 6 % 2 ^ 6),
      UInt8.ofNat (0x80 + codePoint % 2 ^ 6)]
  else
    [UInt8.ofNat (0xF0 + codePoint / 2 ^ 18), UInt8.ofNat (0x80 + codePoint / 2 ^ 12 % 2 ^ 6),
      UInt8.ofNat (0x80 + codePoint / 2 ^ 6 % 2 ^ 6), UInt8.ofNat (0x80 + codePoint % 2 ^ 6)]

def shortEscape (c : UInt8) : Option UInt8 :=
  if c = QUOTE ∨ c = BACKSLASH ∨ c = 0x2F then some c
  else if c = 0x62 then some 0x08
  else if c = 0x66 then some 0x0C
  else if c = 0x6E then some 0x0A
  else if c = 0x72 then some 0x0D
  else if c = 0x74 then some 0x09
  else none

def isLow (unit : ℕ) : Bool := 0xDC00 ≤ unit && unit ≤ 0xDFFF

def isHigh (unit : ℕ) : Bool := 0xD800 ≤ unit && unit ≤ 0xDBFF

/-- The low surrogate that has to follow a high one, and the rest after it. -/
def lowSurrogate : Bytes → Option (ℕ × Bytes)
  | x :: y :: a :: b :: c :: d :: s =>
    if x = BACKSLASH ∧ y = 0x75 then
      match parseHex4 a b c d with
      | some low => if isLow low then some (low, s) else none
      | none => none
    else none
  | _ => none

/-- The code point after `\u`, and the rest after it. -/
def codePoint : Bytes → Option (ℕ × Bytes)
  | a :: b :: c :: d :: s =>
    match parseHex4 a b c d with
    | some unit =>
      if isLow unit then none
      else if isHigh unit then
        (lowSurrogate s).map fun low =>
          (0x10000 + (unit - 0xD800) * 2 ^ 10 + (low.1 - 0xDC00), low.2)
      else some (unit, s)
    | none => none
  | _ => none

/-- One step in a string: its end, or the bytes it adds and the rest. -/
inductive StringStep where
  | close
  | bytes (out : Bytes) (rest : Bytes)
  | malformed
  deriving DecidableEq

def unicodeStep (s : Bytes) : StringStep :=
  match codePoint s with
  | some (point, s) => .bytes (appendUtf8 point) s
  | none => .malformed

def escapeStep : Bytes → StringStep
  | [] => .malformed
  | c :: s =>
    match shortEscape c with
    | some out => .bytes [out] s
    | none => if c = 0x75 then unicodeStep s else .malformed

def stringStep : Bytes → StringStep
  | [] => .malformed
  | c :: s =>
    if c = QUOTE then .close
    else if c = BACKSLASH then escapeStep s
    else .bytes [c] s

/-- The loop over a string; every iteration shortens what is left. -/
def readString : ℕ → Bytes → Option Bytes
  | 0, _ => none
  | fuel + 1, s =>
    match stringStep s with
    | .close => some []
    | .bytes out rest => (readString fuel rest).map (out ++ ·)
    | .malformed => none

def stringAt : Bytes → Option Bytes
  | [] => none
  | c :: s => if c = QUOTE then readString (s.length + 1) s else none

def findStringField (line name : Bytes) : Option Bytes := (findFieldValue line name).bind stringAt

/-- The loop over digits; `acc` is empty before the first one. -/
def readUint : Option ℕ → Bytes → Option ℕ
  | acc, [] => acc
  | acc, c :: s =>
    if isdigit c then
      if 0xFFFFFFFF < acc.getD 0 * 10 + (c.toNat - 0x30) then none
      else readUint (some (acc.getD 0 * 10 + (c.toNat - 0x30))) s
    else acc

def findUintField (line name : Bytes) : Option UInt32 :=
  (findFieldValue line name).bind fun rest => (readUint none rest).map UInt32.ofNat

def parseMarkerLine (line : Bytes) : Option Bytes :=
  match findStringField line (bytes "kind") with
  | some kind => if trim kind = bytes "mark" then findStringField line (bytes "label") else none
  | none => none

def plainKind (kind : Bytes) : Option ControlKind :=
  if kind = bytes "pause" then some .PAUSE
  else if kind = bytes "resume" then some .RESUME
  else if kind = bytes "snapshot" then some .SNAPSHOT
  else none

/-- The kinds with a value; the last one is accepted and ignored. -/
def valuedKind (kind : Bytes) : Option ControlKind :=
  if kind = bytes "set_interval_ms" ∨ kind = bytes "set_worker_interval_ms" then
    some .SET_INTERVAL_MS
  else if kind = bytes "set_node_interval_ms" then some .UNSPECIFIED
  else none

def parseControlLine (line : Bytes) : Option (ControlKind × UInt32) :=
  match findStringField line (bytes "kind") with
  | none => none
  | some kind =>
    match plainKind (trim kind) with
    | some control => some (control, 0)
    | none =>
      match findUintField line (bytes "value") with
      | none => none
      | some value => (valuedKind (trim kind)).map fun control => (control, value)

inductive Command where
  | mark (label : Bytes)
  | control (kind : ControlKind) (value : UInt32)
  deriving DecidableEq

/-- The command of a line, tried as a marker first; any other line is ignored. -/
def parseLine (line : Bytes) : Option Command :=
  match parseMarkerLine line with
  | some label => some (.mark label)
  | none => (parseControlLine line).map fun c => .control c.1 c.2

example : parseLine (bytes "\x7b\"kind\":\"mark\",\"label\":\"a \\u20ac\"\x7d") =
    some (.mark [0x61, 0x20, 0xE2, 0x82, 0xAC]) := by
  decide

end Gempba.Telemetry
