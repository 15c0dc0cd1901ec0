-- SUMMARY: Calculations with whole numbers in shell scripts.

/-!
# Calculations

A calculation is an expression on whole numbers and variables. Operators of a
higher level bind more tightly, those of one level to the left. Numbers have 64
bits and go round. A calculation may also set variables, which are listed in its
result with the latest first.
-/

namespace BuildServer.Shell.Calculation

/-! ## Symbols -/

inductive Symbol where
  | number (value : Int)
  | name (text : String)
  | sign (text : String)
  deriving DecidableEq, Repr

/-- The signs, each before those that it begins with. -/
def signs : List String :=
  ["<<=", ">>=", "<<", ">>", "<=", ">=", "==", "!=", "&&", "||", "+=", "-=", "*=", "/=", "%=",
    "+", "-", "*", "/", "%", "<", ">", "=", "!", "~", "&", "|", "^", "?", ":", "(", ")"]

/-- A digit below 16. -/
def digit? (c : Char) : Option Nat :=
  if c.isDigit then some (c.toNat - '0'.toNat)
  else if 'a' ≤ c ∧ c ≤ 'f' then some (c.toNat - 'a'.toNat + 10)
  else if 'A' ≤ c ∧ c ≤ 'F' then some (c.toNat - 'A'.toNat + 10)
  else none

/-- The number that digits of a base make. -/
def numberIn? (base : Nat) (cs : List Char) : Option Int :=
  cs.foldlM (fun (n : Int) c => do
    let d ← digit? c
    if d < base then some (n * base + d) else none) 0

/-- A number with the prefix of its base: `0x` for sixteen, `0` for eight. -/
def number? : List Char → Option Int
  | '0' :: 'x' :: cs => if cs.isEmpty then none else numberIn? 16 cs
  | '0' :: 'X' :: cs => if cs.isEmpty then none else numberIn? 16 cs
  | '0' :: cs => numberIn? 8 cs
  | [] => none
  | cs => numberIn? 10 cs

/-- The symbols of a text. The number bounds its characters. -/
def symbols? : Nat → List Char → Option (List Symbol)
  | 0, cs => if cs.isEmpty then some [] else none
  | _ + 1, [] => some []
  | n + 1, c :: cs =>
    let isPart (c : Char) : Bool := c.isAlphanum || c == '_'
    if c.isWhitespace then symbols? n cs
    else if isPart c then do
      let text := (c :: cs).takeWhile isPart
      let symbol ←
        if c.isDigit then (number? text).map .number else some (.name (String.ofList text))
      return symbol :: (← symbols? n (cs.dropWhile isPart))
    else do
      let sign ← signs.find? fun sign => sign.toList.isPrefixOf (c :: cs)
      return .sign sign :: (← symbols? n (cs.drop (sign.length - 1)))

/-! ## Operators -/

/-- A number brought into the range of 64 bits. -/
def wrap (n : Int) : Int := n.bmod 18446744073709551616

def truth (b : Bool) : Int := if b then 1 else 0

/-- An operation on the bits of two numbers. -/
def onBits (f : BitVec 64 → BitVec 64 → BitVec 64) (a b : Int) : Int :=
  (f (.ofInt 64 a) (.ofInt 64 b)).toInt

/-- The level of an operator between two numbers. -/
def level? : String → Option Nat
  | "||" => some 1
  | "&&" => some 2
  | "|" => some 3
  | "^" => some 4
  | "&" => some 5
  | "==" | "!=" => some 6
  | "<" | "<=" | ">" | ">=" => some 7
  | "<<" | ">>" => some 8
  | "+" | "-" => some 9
  | "*" | "/" | "%" => some 10
  | _ => none

/-- The value of an operator. Division by zero has none. -/
def outcome? (sign : String) (a b : Int) : Option Int :=
  match sign with
  | "||" => some (truth (a != 0 || b != 0))
  | "&&" => some (truth (a != 0 && b != 0))
  | "|" => some (onBits (· ||| ·) a b)
  | "^" => some (onBits (· ^^^ ·) a b)
  | "&" => some (onBits (· &&& ·) a b)
  | "==" => some (truth (a == b))
  | "!=" => some (truth (a != b))
  | "<" => some (truth (a < b))
  | "<=" => some (truth (a ≤ b))
  | ">" => some (truth (b < a))
  | ">=" => some (truth (b ≤ a))
  | "<<" => some (onBits (fun x y => x <<< (y.toNat % 64)) a b)
  | ">>" => some (onBits (fun x y => x.sshiftRight (y.toNat % 64)) a b)
  | "+" => some (wrap (a + b))
  | "-" => some (wrap (a - b))
  | "*" => some (wrap (a * b))
  | "/" => if b = 0 then none else some (wrap (a.tdiv b))
  | "%" => if b = 0 then none else some (a.tmod b)
  | _ => none

/-- The operator that an assignment does before it sets the variable. -/
def updating? (sign : String) : Option String :=
  if (level? sign).isNone && sign.endsWith "=" then some (String.ofList sign.toList.dropLast)
  else none

/-! ## Evaluation -/

/-- The variables during a calculation. -/
structure Memory where
  given : String → String
  /-- Those that it has set, the latest first. -/
  changes : List (String × Int)

namespace Memory

def set (m : Memory) (name : String) (value : Int) : Memory :=
  { m with changes := (name, value) :: m.changes }

/-- The value of a variable. One that is empty counts as zero. -/
def get? (m : Memory) (name : String) : Option Int :=
  match m.changes.lookup name with
  | some value => some value
  | none =>
    match (m.given name).toList with
    | [] => some 0
    | '-' :: cs => (number? cs).map (- ·)
    | cs => number? cs

end Memory

/-- What is evaluated next. -/
inductive Goal where
  /-- An expression with assignments and conditions. -/
  | whole
  /-- Operators above a level between operands. -/
  | above (level : Nat)
  /-- What goes on after a first operand. -/
  | after (level : Nat) (left : Int)
  | operand

/-- Evaluate from symbols. The number bounds the depth. -/
def eval? : Nat → Goal → Memory → List Symbol → Option (Int × Memory × List Symbol)
  | 0, _, _, _ => none
  | n + 1, .whole, m, symbols => do
    let (test, m', rest) ← match symbols with
      | .name x :: .sign "=" :: rest =>
        let (v, m, rest) ← eval? n .whole m rest
        return (v, m.set x v, rest)
      | .name x :: .sign sign :: rest =>
        match updating? sign with
        | some sign => do
          let (v, m, rest) ← eval? n .whole m rest
          let v ← outcome? sign (← m.get? x) v
          return (v, m.set x v, rest)
        | none => eval? n (.above 0) m symbols
      | symbols => eval? n (.above 0) m symbols
    match rest with
    | .sign "?" :: rest =>
      let (yes, myes, rest) ← eval? n .whole m' rest
      match rest with
      | .sign ":" :: rest =>
        let (no, mno, rest) ← eval? n .whole m' rest
        return if test = 0 then (no, mno, rest) else (yes, myes, rest)
      | _ => none
    | rest => return (test, m', rest)
  | n + 1, .above level, m, symbols => do
    let (left, m, rest) ← eval? n .operand m symbols
    eval? n (.after level left) m rest
  | n + 1, .after level left, m, symbols =>
    match symbols with
    | .sign sign :: rest =>
      match level? sign with
      | some l =>
        if level < l then do
          let (right, m, rest) ← eval? n (.above l) m rest
          let v ← outcome? sign left right
          eval? n (.after level v) m rest
        else some (left, m, symbols)
      | none => some (left, m, symbols)
    | symbols => some (left, m, symbols)
  | n + 1, .operand, m, symbols =>
    match symbols with
    | .number v :: rest => some (wrap v, m, rest)
    | .name x :: rest => (m.get? x).map fun v => (v, m, rest)
    | .sign "-" :: rest => (eval? n .operand m rest).map fun (v, r) => (wrap (- v), r)
    | .sign "+" :: rest => eval? n .operand m rest
    | .sign "!" :: rest => (eval? n .operand m rest).map fun (v, r) => (truth (v == 0), r)
    | .sign "~" :: rest => (eval? n .operand m rest).map fun (v, r) => (- v - 1, r)
    | .sign "(" :: rest => do
      let (v, m, rest) ← eval? n .whole m rest
      match rest with
      | .sign ")" :: rest => some (v, m, rest)
      | _ => none
    | _ => none

/-- The value of a calculation and the variables that it sets, or nothing if it
    makes no sense. -/
def value? (given : String → String) (source : String) : Option (Int × List (String × Int)) := do
  let symbols ← symbols? source.length source.toList
  let (v, m, rest) ← eval? (6 * symbols.length + 6) .whole ⟨given, []⟩ symbols
  if rest.isEmpty then return (v, m.changes) else none

end BuildServer.Shell.Calculation
