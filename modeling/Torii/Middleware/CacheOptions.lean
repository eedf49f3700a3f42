import Torii.Middleware.Chain
import Torii.Middleware.Options

/-!
# Options of the caches of middlewares

`ParseCacheOptions` of `internal/util/evict_cache.go` and `ParseMiddlewareCacheOptions` of
`middleware/config_parser.go`. An option of an unexpected type is passed over; only a duration that
cannot be read is an error. The time of the call, which stands in the default name, is an argument.
The context and the subsystem are handed on as they are and are left out.
-/

namespace Torii.Middleware

open Go Torii.Util

structure CacheOptions where
  isUsingDefaultCacheName : Bool
  trackRate : Bool := false
  cacheName : String
  owner : String := ""
  purpose : String := ""
  scope : String := ""
  keyKind : String := ""
  valueKind : String := ""
  maxEntries : Int
  ttl : Int
  cleanupInterval : Int
deriving DecidableEq

def defaultCacheTtl : String := "1h"

def defaultCleanupInterval : String := "1h"

def defaultMaxEntries : Int := 100000

inductive CacheOptionsError where
  | ttl (err : TimeError)
  | cleanupInterval (err : TimeError)
deriving DecidableEq

def CacheOptionsError.message (numError : String → String) : CacheOptionsError → String
  | .ttl err => "invalid TTL string: " ++ err.message numError
  | .cleanupInterval err => "invalid cleanup interval string: " ++ err.message numError

def stringOr (configMap : GoMap String OptionValue) (key default : String) : String :=
  match configMap.lookup key with
  | some (.string str) => str
  | _ => default

/-- The option "max-cache-size" as `ParseCacheOptions` reads it. -/
def maxCacheSize (configMap : GoMap String OptionValue) : Int :=
  match configMap.lookup "max-cache-size" with
  | some (.int m) => m
  | _ => defaultMaxEntries

def cacheNameOr (configMap : GoMap String OptionValue) (default : String) : Bool × String :=
  match configMap.lookup "cache-name" with
  | some (.string m) => (false, m)
  | _ => (true, default)

/-- `ParseCacheOptions` at the time `now`, in nanoseconds. -/
def parseCacheOptions (now : Int) (configMap : GoMap String OptionValue) :
    Except CacheOptionsError CacheOptions :=
  match parseTimeString (stringOr configMap "cache-ttl" defaultCacheTtl) with
  | .error err => .error (.ttl err)
  | .ok ttl =>
    match parseTimeString (stringOr configMap "cleanup-interval" defaultCleanupInterval) with
    | .error err => .error (.cleanupInterval err)
    | .ok cleanupInterval =>
      let name := cacheNameOr configMap ("cache-" ++ Strconv.itoa now)
      .ok
        { isUsingDefaultCacheName := name.1
          cacheName := name.2
          maxEntries := maxCacheSize configMap
          ttl := ttl
          cleanupInterval := cleanupInterval }

structure CacheRuntimeOptions where
  owner : String
  purpose : String
  namePrefix : String
  keyKind : String
  valueKind : String
  trackRate : Bool

def CacheOptions.complete (ctx : BuildContext) (runtime : CacheRuntimeOptions)
    (cacheOpts : CacheOptions) : CacheOptions :=
  let cacheOpts :=
    { cacheOpts with
      trackRate := runtime.trackRate
      owner := runtime.owner
      purpose := runtime.purpose
      scope := ctx.connectionName
      keyKind := runtime.keyKind
      valueKind := runtime.valueKind }
  if cacheOpts.isUsingDefaultCacheName then
    match ctx.scopedName runtime.namePrefix with
    | .error _ => cacheOpts
    | .ok cacheName => { cacheOpts with cacheName := cacheName }
  else cacheOpts

/-- `ParseMiddlewareCacheOptions`; a missing map is read as an empty one. -/
def parseMiddlewareCacheOptions (now : Int) (ctx : BuildContext) (conf : Config)
    (runtime : CacheRuntimeOptions) : Except CacheOptionsError CacheOptions :=
  match parseCacheOptions now (conf.options.getD ∅) with
  | .error err => .error err
  | .ok cacheOpts => .ok (cacheOpts.complete ctx runtime)

end Torii.Middleware
