import Torii.Go.Strings

/-!
# Values from files and from the environment

`ResolveValue` of `internal/resolve`: a text behind a dollar sign names a resolver and what it is to
resolve. What is in the files and in the environment is an argument.
-/

namespace Torii.Util

open Go

structure Sources where
  /-- `os.ReadFile`, with the text of its error. -/
  readFile : String → Except String String
  /-- `os.LookupEnv`. -/
  lookupEnv : String → Option String

inductive ResolveError where
  | invalidFormat (raw : String)
  | missingColon (raw : String)
  | noResolver (key : String)
  | file (path cause : String)
  | env (key : String)
deriving DecidableEq

def ResolveError.message (quote : String → String) : ResolveError → String
  | .invalidFormat raw => "invalid resolver format: " ++ raw
  | .missingColon raw => "invalid resolver format, missing ':': " ++ raw
  | .noResolver key => "no resolver registered for " ++ quote key
  | .file path cause => "failed to read file " ++ path ++ ": " ++ cause
  | .env key => "environment variable " ++ key ++ " not found"

def Sources.resolveFile (src : Sources) (path : String) : Except ResolveError String :=
  match src.readFile path with
  | .error cause => .error (.file path cause)
  | .ok content => .ok (Strings.trimRight content '\n')

def Sources.resolveEnv (src : Sources) (key : String) : Except ResolveError String :=
  match src.lookupEnv key with
  | none => .error (.env key)
  | some value => .ok value

def resolveValue (src : Sources) (raw : String) : Except ResolveError String :=
  if "$".toList.isPrefixOf raw.toList then
    if raw.length = 1 then .error (.invalidFormat raw)
    else
      match Strings.index raw ":" with
      | none => .error (.missingColon raw)
      | some firstIndexOf =>
        let key := Strings.take raw firstIndexOf
        let value := String.ofList (raw.toList.drop (firstIndexOf + 1))
        if key = "$file" then src.resolveFile value
        else if key = "$env" then src.resolveEnv value
        else .error (.noResolver key)
  else .ok raw

end Torii.Util
