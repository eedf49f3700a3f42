import Torii.Middleware.Registry
import Torii.Util.Parse

/-!
# Options of middlewares

The functions of `middleware/config_parser.go` that read a number, a text or a flag from the
options of a middleware, and `parseIntOptStrict` of `middleware/totp_middleware.go`.
-/

namespace Torii.Middleware

open Go Torii.Util

/-- `%T` of a value. -/
def OptionValue.typeName : OptionValue → String
  | .null => "<nil>"
  | .bool _ => "bool"
  | .int _ => "int"
  | .float _ => "float64"
  | .string _ => "string"
  | .list _ => "[]interface \x7b\x7d"
  | .map _ => "map[string]interface \x7b\x7d"

/-- `int(v)` of a `float64`: the fraction is cut off. Outside 64 bits the language leaves the
value open; the smallest integer is what amd64 gives. -/
def truncate (x : Rat) : Int :=
  let n := x.num.tdiv x.den
  if -2 ^ 63 ≤ n ∧ n < 2 ^ 63 then n else -2 ^ 63

/-- `float64(v)` of an `int`: the nearest number with a significand of 53 bits, and of two that
are as near the one with the even significand. -/
def float64 (v : Int) : Rat :=
  let ulp := 2 ^ (v.natAbs.log2 - 52)
  let quotient := v.natAbs / ulp
  let rest := v.natAbs % ulp
  let significand :=
    if ulp < 2 * rest ∨ ulp = 2 * rest ∧ quotient % 2 = 1 then quotient + 1 else quotient
  (v.sign * (significand * ulp : Nat) : Int)

inductive OptionError where
  | missing (key : String)
  | notNumber (key type : String)
  | notString (key type : String)
  | empty (key : String)
deriving DecidableEq

def OptionError.message : OptionError → String
  | .missing key => "missing required option '" ++ key ++ "'"
  | .notNumber key type => "'" ++ key ++ "' option must be a number, got " ++ type
  | .notString key type => "'" ++ key ++ "' option must be a string, got " ++ type
  | .empty key => "'" ++ key ++ "' option cannot be empty"

def parseIntOptRequired (opts : GoMap String OptionValue) (key : String) : Except OptionError Int :=
  match opts.lookup key with
  | none | some .null => .error (.missing key)
  | some (.float v) => .ok (truncate v)
  | some (.int v) => .ok v
  | some raw => .error (.notNumber key raw.typeName)

def parseFloatOptRequired (opts : GoMap String OptionValue) (key : String) :
    Except OptionError Rat :=
  match opts.lookup key with
  | none | some .null => .error (.missing key)
  | some (.float v) => .ok v
  | some (.int v) => .ok (float64 v)
  | some raw => .error (.notNumber key raw.typeName)

def parseIntOptStrict (opts : GoMap String OptionValue) (key : String) (defaultValue : Int) :
    Except OptionError Int :=
  match opts.lookup key with
  | none | some .null => .ok defaultValue
  | some (.float v) => .ok (truncate v)
  | some (.int v) => .ok v
  | some raw => .error (.notNumber key raw.typeName)

def parseIntOpt (opts : GoMap String OptionValue) (key : String) (defaultValue : Int) : Int :=
  match opts.lookup key with
  | some (.float v) => truncate v
  | some (.int v) => v
  | _ => defaultValue

def parseStringOpt (opts : GoMap String OptionValue) (key defaultVal : String) :
    Except OptionError String :=
  match opts.lookup key with
  | none | some .null => .ok defaultVal
  | some (.string v) => .ok v
  | some raw => .error (.notString key raw.typeName)

/-- `strconv.ParseBool`; nothing for an error. -/
def parseBool (s : String) : Option Bool :=
  if s ∈ ["1", "t", "T", "true", "TRUE", "True"] then some true
  else if s ∈ ["0", "f", "F", "false", "FALSE", "False"] then some false
  else none

def parseBoolOpt (opts : GoMap String OptionValue) (key : String) (defaultVal : Bool) : Bool :=
  match opts.lookup key with
  | some (.bool v) => v
  | some (.string v) => (parseBool v).getD defaultVal
  | _ => defaultVal

def parseStringRequired (opts : GoMap String OptionValue) (key : String) :
    Except OptionError String :=
  match opts.lookup key with
  | none | some .null => .error (.missing key)
  | some (.string s) => if s = "" then .error (.empty key) else .ok s
  | some raw => .error (.notString key raw.typeName)

end Torii.Middleware
