import VectorMachine.Number.Read
import VectorMachine.Text.Quoted

/-!
# Flags

A flag starts with one or two dashes.  Its value follows an equals sign or is the
next argument; a switch needs no value.  Flags and other arguments may stand in any
order.
-/

namespace VectorMachine

inductive FlagKind where
  | switch
  | integer
  | unsigned
  | text
deriving DecidableEq

inductive FlagValue where
  | switch (b : Bool)
  | integer (n : Int)
  | unsigned (n : Nat)
  | text (t : Text)
deriving DecidableEq

abbrev FlagSet := List (String × FlagKind)

abbrev Settings := List (Text × FlagValue)

inductive FlagError where
  | badSyntax (argument : Text)
  | undefined (name : Text)
  | helpRequested
  | missingValue (name : Text)
  | badSwitch (value name : Text)
  | badValue (value name : Text) (e : Number.ReadError)
deriving DecidableEq

namespace FlagError

def reason : Number.ReadError -> String
  | .malformed => "parse error"
  | .outOfRange => "value out of range"

def message : FlagError -> Text
  | badSyntax argument => utf8 "bad flag syntax: " ++ argument
  | undefined name => utf8 "flag provided but not defined: -" ++ name
  | helpRequested => utf8 "flag: help requested"
  | missingValue name => utf8 "flag needs an argument: -" ++ name
  | badSwitch value name =>
      utf8 "invalid boolean value " ++ Quoted.quote value ++ utf8 " for -" ++ name
        ++ utf8 ": parse error"
  | badValue value name e =>
      utf8 "invalid value " ++ Quoted.quote value ++ utf8 " for flag -" ++ name ++ utf8 ": "
        ++ utf8 (reason e)

end FlagError

namespace Settings

def integer (s : Settings) (name : String) (default : Int) : Int :=
  match s.lookup (utf8 name) with
  | some (.integer n) => n
  | _ => default

def unsigned (s : Settings) (name : String) (default : Nat) : Nat :=
  match s.lookup (utf8 name) with
  | some (.unsigned n) => n
  | _ => default

def switch (s : Settings) (name : String) : Bool :=
  match s.lookup (utf8 name) with
  | some (.switch b) => b
  | _ => false

def text (s : Settings) (name : String) : Text :=
  match s.lookup (utf8 name) with
  | some (.text t) => t
  | _ => []

end Settings

namespace FlagSet

/-!
## One argument
-/

inductive Argument where
  | plain
  | terminator
  | malformed
  | flag (name : Text) (value : Option Text)
deriving DecidableEq

def dash : UInt8 := 0x2d

def equalsSign : UInt8 := 0x3d

/-- Split a flag at the first equals sign behind its first byte. -/
def splitValue (first : UInt8) (rest : Text) : Argument :=
  match rest.dropWhile (· != equalsSign) with
  | [] => .flag (first :: rest) none
  | _ :: value => .flag (first :: rest.takeWhile (· != equalsSign)) (some value)

def named : Text -> Argument
  | [] => .malformed
  | b :: rest => if b = dash ∨ b = equalsSign then .malformed else splitValue b rest

def classify : Text -> Argument
  | [] => .plain
  | [_] => .plain
  | a :: b :: rest =>
      if a ≠ dash then .plain
      else if b ≠ dash then named (b :: rest)
      else if rest = [] then .terminator
      else named rest

def kind? (flags : FlagSet) (name : Text) : Option FlagKind :=
  flags.findSome? fun (n, kind) => if utf8 n = name then some kind else none

def readValue (kind : FlagKind) (name value : Text) : Except FlagError FlagValue :=
  match kind with
  | .switch =>
      match Number.readBool value with
      | some b => .ok (.switch b)
      | none => .error (.badSwitch value name)
  | .integer =>
      ((Number.readIntMarked value).map .integer).mapError fun e => .badValue value name e
  | .unsigned =>
      ((Number.readUnsignedMarked value).map .unsigned).mapError fun e => .badValue value name e
  | .text => .ok (.text value)

def unknown (name : Text) : FlagError :=
  if name = utf8 "help" ∨ name = utf8 "h" then .helpRequested else .undefined name

/-!
## All arguments
-/

/-- Read the flags at the front of the arguments, up to the first argument that is
no flag.  The rest of the arguments is given back. -/
def parseFront (flags : FlagSet) (s : Settings) :
    List Text -> Except FlagError (Settings × List Text)
  | [] => .ok (s, [])
  | argument :: rest =>
      match classify argument with
      | .plain => .ok (s, argument :: rest)
      | .terminator => .ok (s, rest)
      | .malformed => .error (.badSyntax argument)
      | .flag name value? =>
          match flags.kind? name, value?, rest with
          | none, _, _ => .error (unknown name)
          | some kind, some value, rest =>
              match readValue kind name value with
              | .error e => .error e
              | .ok v => parseFront flags ((name, v) :: s) rest
          | some .switch, none, rest => parseFront flags ((name, .switch true) :: s) rest
          | some _, none, [] => .error (.missingValue name)
          | some kind, none, value :: rest =>
              match readValue kind name value with
              | .error e => .error e
              | .ok v => parseFront flags ((name, v) :: s) rest

theorem parseFront_length_le (flags : FlagSet) {s s' : Settings} {arguments rest : List Text}
    (h : parseFront flags s arguments = .ok (s', rest)) : rest.length ≤ arguments.length := by
  fun_induction parseFront flags s arguments with
  | case1 s =>
      cases h
      exact Nat.le_refl 0
  | case2 s argument arguments hplain =>
      cases h
      exact Nat.le_refl _
  | case3 s argument arguments hterminator =>
      cases h
      exact Nat.le_succ _
  | case7 s argument name kind value arguments hkind v hvalue hflag ih =>
      exact Nat.le_succ_of_le (ih h)
  | case8 s argument name arguments hkind hflag ih => exact Nat.le_succ_of_le (ih h)
  | case11 s argument name kind value arguments hswitch hkind v hvalue hflag ih =>
      -- the value is an argument of its own
      exact Nat.le_succ_of_le (Nat.le_succ_of_le (ih h))
  | case4 | case5 | case6 | case9 | case10 => cases h

def parse (flags : FlagSet) (s : Settings) (arguments : List Text) :
    Except FlagError (Settings × List Text) :=
  match _h : parseFront flags s arguments with
  | .error e => .error e
  | .ok (s, []) => .ok (s, [])
  | .ok (s, argument :: rest) =>
      match parse flags s rest with
      | .error e => .error e
      | .ok (s, others) => .ok (s, argument :: others)
termination_by arguments.length
decreasing_by
  have := parseFront_length_le flags _h
  simp at this
  omega

end FlagSet
end VectorMachine
