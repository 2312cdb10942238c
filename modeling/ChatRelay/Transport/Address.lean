/-!
# Socket addresses

An address is a host and a port: `1.2.3.4:80` for an IPv4 host, `[::1]:80` for an IPv6 host, where a
percent sign and a number after the host name a scope. Names are not looked up. An IPv6 host is shown
with its first longest run of at least two zero groups left out.
-/

namespace ChatRelay.Transport

/-- An internet host: four bytes, or eight groups of 16 bits with a scope. -/
inductive Host where
  | v4 (bytes : List Nat)
  | v6 (groups : List Nat) (scope : Nat)
  deriving DecidableEq, Repr

/-- A host and a port. -/
structure Address where
  host : Host
  port : Nat
  deriving DecidableEq, Repr

namespace Address

/-- The value of a digit in bases up to sixteen. -/
def digit? (c : Char) : Option Nat :=
  if '0' ≤ c ∧ c ≤ '9' then some (c.toNat - 48)
  else if 'a' ≤ c ∧ c ≤ 'f' then some (c.toNat - 87)
  else if 'A' ≤ c ∧ c ≤ 'F' then some (c.toNat - 55)
  else none

/-- The character is a digit in this base. -/
def isDigit (base : Nat) (c : Char) : Bool :=
  match digit? c with
  | some value => value < base
  | none => false

/-- How a number is written: its base, the most digits if there is such a limit, whether more digits
may follow a leading zero, and its greatest value. -/
structure NumberForm where
  base : Nat
  maxDigits : Option Nat
  leadingZero : Bool
  maxValue : Nat

/-- A byte of an IPv4 host. -/
def byteForm : NumberForm := ⟨10, some 3, false, 0xFF⟩

/-- A group of an IPv6 host. -/
def groupForm : NumberForm := ⟨16, some 4, true, 0xFFFF⟩

/-- A port. -/
def portForm : NumberForm := ⟨10, none, true, 0xFFFF⟩

/-- The scope of an IPv6 host. -/
def scopeForm : NumberForm := ⟨10, none, true, 0xFFFFFFFF⟩

/-- Read as many digits as there are; they have to make a number of this form. -/
def number? (form : NumberForm) (chars : List Char) : Option (Nat × List Char) :=
  let digits := chars.takeWhile (isDigit form.base)
  let value := digits.foldl (fun value c ↦ value * form.base + (digit? c).getD 0) 0
  let short := match form.maxDigits with
    | none => true
    | some most => digits.length ≤ most
  let zero := !form.leadingZero && digits.head? == some '0' && digits.length > 1
  if !digits.isEmpty && short && !zero && value ≤ form.maxValue then
    some (value, chars.drop digits.length)
  else none

/-- Read this character. -/
def expect? (c : Char) : List Char → Option (List Char)
  | first :: rest => if first == c then some rest else none
  | [] => none

/-- Read the four bytes of an IPv4 host. -/
def bytes? (chars : List Char) : Option (List Nat × List Char) := do
  let (a, chars) ← number? byteForm chars
  let chars ← expect? '.' chars
  let (b, chars) ← number? byteForm chars
  let chars ← expect? '.' chars
  let (c, chars) ← number? byteForm chars
  let chars ← expect? '.' chars
  let (d, chars) ← number? byteForm chars
  pure ([a, b, c, d], chars)

/-- The two groups that four bytes make. -/
def groupsOfBytes : List Nat → List Nat
  | high :: low :: rest => (high * 256 + low) :: groupsOfBytes rest
  | _ => []

/-- Read at most so many groups with colons between them, the first without one in front. An IPv4
host may stand for the last two; the second answer is whether it did. -/
def groups (first : Bool) : Nat → List Char → List Nat × Bool × List Char
  | 0, chars => ([], false, chars)
  | left + 1, chars =>
      match if first then some chars else expect? ':' chars with
      | none => ([], false, chars)
      | some body =>
          match if left = 0 then none else bytes? body with
          | some (bytes, rest) => (groupsOfBytes bytes, true, rest)
          | none =>
              match number? groupForm body with
              | none => ([], false, chars)
              | some (group, rest) =>
                  let (more, embedded, rest) := groups false left rest
                  (group :: more, embedded, rest)

/-- Read an IPv6 host: eight groups, or fewer around a double colon that stands for at least one zero
group. No IPv4 host stands before a double colon. -/
def groups? (chars : List Char) : Option (List Nat × List Char) :=
  let (front, embedded, rest) := groups true 8 chars
  if front.length = 8 then some (front, rest)
  else if embedded then none
  else do
    let rest ← expect? ':' rest
    let rest ← expect? ':' rest
    let (back, _, rest) := groups true (7 - front.length) rest
    pure (front ++ List.replicate (8 - front.length - back.length) 0 ++ back, rest)

/-- Read a colon and a port at the end. -/
def port? (chars : List Char) : Option Nat := do
  let chars ← expect? ':' chars
  let (port, rest) ← number? portForm chars
  if rest.isEmpty then some port else none

/-- Read the scope of an IPv6 host, which is zero if there is none. -/
def scope (chars : List Char) : Nat × List Char :=
  match (expect? '%' chars).bind (number? scopeForm) with
  | some (scope, rest) => (scope, rest)
  | none => (0, chars)

/-- Read an address. -/
def parse? (text : String) : Option Address :=
  let chars := text.toList
  match bytes? chars with
  | some (bytes, rest) => (port? rest).map (⟨.v4 bytes, ·⟩)
  | none => do
      let chars ← expect? '[' chars
      let (groups, rest) ← groups? chars
      let (scope, rest) := scope rest
      let rest ← expect? ']' rest
      (port? rest).map (⟨.v6 groups scope, ·⟩)

/-- The bytes with points between them. -/
def showBytes (bytes : List Nat) : String :=
  ".".intercalate (bytes.map toString)

/-- The groups in base sixteen with colons between them. -/
def showGroups (groups : List Nat) : String :=
  ":".intercalate (groups.map fun group ↦ String.ofList (Nat.toDigits 16 group))

/-- Where the first longest run of zeros starts, and its length, given the run that ends here and the
best so far. -/
def longestZeros (index : Nat) (current best : Nat × Nat) : List Nat → Nat × Nat
  | [] => best
  | group :: rest =>
      if group = 0 then
        let current := if current.2 = 0 then (index, 1) else (current.1, current.2 + 1)
        longestZeros (index + 1) current (if current.2 > best.2 then current else best) rest
      else longestZeros (index + 1) (0, 0) best rest

/-- The groups of an IPv6 host as text. An IPv4 host inside is shown as one. -/
def showV6 (groups : List Nat) : String :=
  match groups with
  | [0, 0, 0, 0, 0, 0xFFFF, high, low] =>
      "::ffff:" ++ showBytes [high / 256, high % 256, low / 256, low % 256]
  | _ =>
      let (start, count) := longestZeros 0 (0, 0) (0, 0) groups
      if count > 1 then
        showGroups (groups.take start) ++ "::" ++ showGroups (groups.drop (start + count))
      else showGroups groups

/-- The address as text. -/
def toText (a : Address) : String :=
  (match a.host with
    | .v4 bytes => showBytes bytes
    | .v6 groups 0 => "[" ++ showV6 groups ++ "]"
    | .v6 groups scope => "[" ++ showV6 groups ++ "%" ++ toString scope ++ "]") ++
    ":" ++ toString a.port

/-- Every IPv4 interface of the machine, at this port. -/
def anyInterface (port : Nat) : Address :=
  ⟨.v4 [0, 0, 0, 0], port⟩

example : (parse? "10.0.0.255:080").map toText = some "10.0.0.255:80" := by cbv
example : (parse? "[2001:DB8::1:0:0:1%7]:65535").map toText = some "[2001:db8::1:0:0:1%7]:65535" := by
  cbv
example : (parse? "[::ffff:1.2.3.4]:1").map toText = some "[::ffff:1.2.3.4]:1" := by cbv
example : (parse? "[1:0:0:2:0:0:0:3]:9").map toText = some "[1:0:0:2::3]:9" := by cbv
example : parse? "01.2.3.4:5" = none ∧ parse? "1.2.3.4:65536" = none ∧
    parse? "[1::2::3]:4" = none := by
  refine ⟨?_, ?_, ?_⟩ <;> cbv

end Address

end ChatRelay.Transport
