import Torii.Go.Reply
import Torii.Middleware.Registry
import Torii.Util.Resolve

/-!
# Requests as the middlewares see them

The variables of `internal/resolve/request_resolver.go`, which stand for parts of a request, and
`BlockInfo` of `internal/requestctx/block_context.go`, which a middleware leaves in the context of
a request that it turns away.
-/

namespace Torii.Middleware

open Go Go.Http

/-- The parts of `*http.Request` that the resolvers read. -/
structure ClientRequest extends Go.Http.Request where
  /-- `r.Method`. -/
  method : String := "GET"
  /-- `r.RequestURI`. -/
  requestURI : String := "/"
  /-- `r.TLS` is set. -/
  tls : Bool := false

def requestScheme (r : ClientRequest) : String := if r.tls then "https" else "http"

def requestVars : List (String × (ClientRequest → String)) :=
  [("$remote_addr", fun r => r.remoteAddr), ("$host", fun r => r.host),
    ("$method", fun r => r.method), ("$uri", fun r => r.requestURI), ("$scheme", requestScheme)]

def getRequestResolver (key : String) : Option (ClientRequest → String) :=
  if key = "" then none else requestVars.lookup key

structure BlockInfo where
  middleware : String
  reason : String
  topic : String
deriving DecidableEq

/-- The bindings of a map in the order in which a `range` loop meets them: first those of the keys
that `order` names, then the rest. -/
def rangeFields (order : List String) (fields : List (String × OptionValue)) :
    List (String × OptionValue) :=
  order.dedup.flatMap (fun key => fields.filter fun field => field.1 = key) ++
    fields.filter fun field => field.1 ∉ order

theorem mem_rangeFields {order : List String} {fields : List (String × OptionValue)}
    {field : String × OptionValue} : field ∈ rangeFields order fields ↔ field ∈ fields := by
  simp only [rangeFields, List.mem_append, List.mem_flatMap, List.mem_dedup, List.mem_filter,
    decide_eq_true_eq]
  constructor
  · rintro (⟨key, -, h, -⟩ | ⟨h, -⟩)
    · exact h
    · exact h
  · intro h
    by_cases horder : field.1 ∈ order
    · exact .inl ⟨field.1, horder, h, rfl⟩
    · exact .inr ⟨h, horder⟩

end Torii.Middleware
