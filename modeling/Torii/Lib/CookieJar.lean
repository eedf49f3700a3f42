import Torii.Go.Map

/-!
# Cookie jars

A browser keeps cookies by name, domain and path. A cookie that is set again keeps its place, and
cookies with the same path are sent in the order in which they were first set.
-/

structure CookieKey where
  name : String
  domain : String
  path : String
deriving DecidableEq

/-- The cookies that are sent to a host, in the order in which they are sent. -/
abbrev CookieJar (V : Type*) := List (CookieKey × V)

namespace CookieJar

open Go

variable {V : Type*} {name : String}

/-- The cookie that the server finds under a name. -/
def leading (name : String) (jar : CookieJar V) : Option (CookieKey × V) :=
  jar.find? (·.1.name = name)

theorem mem_of_leading {jar : CookieJar V} {e : CookieKey × V} (h : leading name jar = some e) :
    e ∈ jar :=
  List.mem_of_find?_eq_some h

theorem leading_assign {key : CookieKey} (hkey : key.name = name) (v : V) (jar : CookieJar V) :
    leading name (assign key v jar) =
      match leading name jar with
      | none => some (key, v)
      | some e => if e.1 = key then some (key, v) else some e := by
  induction jar with
  | nil => simp [leading, assign, hkey]
  | cons entry jar ih =>
    obtain ⟨key', v'⟩ := entry
    rw [assign]
    by_cases hsame : key' = key
    · subst hsame
      simp [leading, hkey]
    · rw [if_neg hsame]
      by_cases hname : key'.name = name
      · simp [leading, hname, hsame]
      · simpa [leading, hname] using ih

end CookieJar
