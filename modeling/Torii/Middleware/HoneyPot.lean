import Mathlib.Data.List.Chain
import Torii.Go.Http
import Torii.Lib.Machine
import Torii.Ratelimit.Limiter

/-!
# Honeypot

`HoneyPotMiddleware` bans the address of a client that asks for a honeypot path: it enters a cache
whose entries expire when they are not used, and every request of a cached client is served by the
honeypot and touches its entry.
-/

namespace Torii.Middleware.HoneyPot

open Go Go.Http Go.Netip Torii.Util Torii.Ratelimit

structure HoneyPotCacheEntry where
  ip : String
  lastSeen : Nat

instance : EvictableEntry HoneyPotCacheEntry where
  touch now entry := { entry with lastSeen := now }
  getLastReadAt := HoneyPotCacheEntry.lastSeen
  getLastReadAt_touch _ _ := rfl

/-- One entry of the list of paths: `*` at the front matches anywhere. -/
def matchesPath (p path : String) : Bool :=
  match p.toList with
  | '*' :: c :: cs => Strings.contains path (String.ofList (c :: cs))
  | cs => cs.isPrefixOf path.toList

def isHoneyPotPath (paths : List String) (path : String) : Bool := paths.any (matchesPath · path)

example : isHoneyPotPath ["/.env", "*/phpinfo.php"] "/old/phpinfo.php" = true := by decide
example : isHoneyPotPath ["/.env", "*/phpinfo.php"] "/a/.env" = false := by decide

def addIpToHoneyPot (cache : Cache HoneyPotCacheEntry) (now : Nat) (order : List String)
    (ip : String) : Cache HoneyPotCacheEntry :=
  cache.cacheValue now order ip ⟨ip, now⟩

def isHoneyPottedIp (cache : Cache HoneyPotCacheEntry) (now : Nat) (ip : String) :
    Bool × Cache HoneyPotCacheEntry :=
  let found := cache.getValue now ip
  (found.1.isSome, found.2)

inductive Answer where
  | forbidden
  | honeypot
  | next
deriving DecidableEq

/-- A request, the instant at which it is handled, and the order in which `evictOldest` would
range over the cache. -/
structure Visit where
  now : Nat
  order : List String
  request : Request

def handle (paths : List String) (cache : Cache HoneyPotCacheEntry) (v : Visit) :
    Answer × Cache HoneyPotCacheEntry :=
  match getClientIP v.request.remoteAddr with
  | .error _ => (.forbidden, cache)
  | .ok clientIP =>
    match parseAddr clientIP with
    | none => (.forbidden, cache)
    | some addr =>
      let (isHoneyPotted, cache) := isHoneyPottedIp cache v.now addr.string
      if isHoneyPotted then (.honeypot, cache)
      else if isHoneyPotPath paths v.request.path then
        (.honeypot, addIpToHoneyPot cache v.now v.order addr.string)
      else (.next, cache)

inductive Op where
  | request (v : Visit)
  | sweep (now : Nat)

def Op.time : Op → Nat
  | .request v => v.now
  | .sweep now => now

def server (paths : List String) : Machine (Cache HoneyPotCacheEntry) Op (Option Answer) where
  step cache
    | .request v =>
      let (answer, cache) := handle paths cache v
      (some answer, cache)
    | .sweep now => (none, cache.sweep now)

def newCache (maxEntries : Int) (ttl : Nat) : Cache HoneyPotCacheEntry := ⟨maxEntries, ttl, ∅⟩

/-! ## Clients and bans -/

/-- The address of the client as the cache knows it. -/
def clientKey (request : Request) : Option String :=
  (getClientIP request.remoteAddr).toOption.bind fun ip => (parseAddr ip).map Addr.string

/-- The visits of a client: when, and whether to a honeypot path. -/
def visits (paths : List String) (key : String) (ops : List Op) : List (Nat × Bool) :=
  ops.filterMap fun
    | .request v =>
      if clientKey v.request = some key then some (v.now, isHoneyPotPath paths v.request.path)
      else none
    | .sweep _ => none

def bannedKeys (paths : List String) (ops : List Op) : Finset String :=
  (ops.filterMap fun
    | .request v => if isHoneyPotPath paths v.request.path then clientKey v.request else none
    | .sweep _ => none).toFinset

/-- Some visit hit a honeypot path, and since then every visit came no later than `ttl` after
the one before it. -/
def Banned (ttl : Nat) (visits : List (Nat × Bool)) : Prop :=
  ∃ earlier hit later, visits = earlier ++ hit :: later ∧ hit.2 = true ∧
    (hit :: later).IsChain fun v w => w.1 - v.1 ≤ ttl

theorem banned_concat (ttl : Nat) (vs : List (Nat × Bool)) (v : Nat × Bool) :
    Banned ttl (vs ++ [v]) ↔
      v.2 = true ∨ Banned ttl vs ∧ ∃ last, vs.getLast? = some last ∧ v.1 - last.1 ≤ ttl := by
  constructor
  · rintro ⟨earlier, hit, later, hsplit, hhit, hchain⟩
    obtain rfl | ⟨later, w, rfl⟩ := List.eq_nil_or_concat later
    · obtain ⟨-, hv⟩ := List.append_inj' hsplit rfl
      cases hv
      exact .inl hhit
    · rw [List.concat_eq_append] at hsplit hchain
      rw [← List.cons_append, ← List.append_assoc] at hsplit
      obtain ⟨rfl, hv⟩ := List.append_inj' hsplit rfl
      cases hv
      rw [← List.cons_append, List.isChain_append] at hchain
      obtain ⟨hbefore, -, hgap⟩ := hchain
      have hlast : (earlier ++ hit :: later).getLast? =
          some ((hit :: later).getLast (by simp)) := by
        rw [List.getLast?_append_of_ne_nil _ (by simp), List.getLast?_eq_some_getLast]
      exact .inr ⟨⟨earlier, hit, later, rfl, hhit, hbefore⟩, _, hlast,
        hgap _ (List.getLast?_eq_some_getLast _) _ rfl⟩
  · rintro (hhit | ⟨⟨earlier, hit, later, rfl, hhit, hchain⟩, last, hlast, hgap⟩)
    · exact ⟨vs, v, [], rfl, hhit, by simp⟩
    · refine ⟨earlier, hit, later ++ [v], by simp, hhit, ?_⟩
      rw [List.getLast?_append_of_ne_nil _ (by simp)] at hlast
      rw [← List.cons_append]
      refine hchain.append (by simp) ?_
      intro x hx y hy
      rw [Option.mem_def, hlast] at hx
      cases hx
      cases hy
      exact hgap

variable {cache : Cache HoneyPotCacheEntry} {key : String} (paths : List String) {v : Visit}

theorem handle_eq (cache : Cache HoneyPotCacheEntry) (hkey : clientKey v.request = some key) :
    handle paths cache v =
      if (cache.getValue v.now key).1.isSome then (.honeypot, (cache.getValue v.now key).2)
      else if isHoneyPotPath paths v.request.path then
        (.honeypot, addIpToHoneyPot (cache.getValue v.now key).2 v.now v.order key)
      else (.next, (cache.getValue v.now key).2) := by
  rw [clientKey, Option.bind_eq_some_iff] at hkey
  obtain ⟨ip, hip, haddr⟩ := hkey
  obtain ⟨addr, hparse, rfl⟩ := Option.map_eq_some_iff.mp haddr
  rw [handle]
  cases hclient : getClientIP v.request.remoteAddr with
  | error e => simp [hclient, Except.toOption] at hip
  | ok clientIP =>
    obtain rfl : clientIP = ip := by simpa [hclient, Except.toOption] using hip
    simp only [hparse]
    rfl

theorem handle_of_none (cache : Cache HoneyPotCacheEntry)
    (hkey : clientKey v.request = none) : handle paths cache v = (.forbidden, cache) := by
  rw [handle]
  cases hclient : getClientIP v.request.remoteAddr with
  | error e => rfl
  | ok clientIP =>
    have hparse : parseAddr clientIP = none := by
      simpa [clientKey, hclient, Except.toOption] using hkey
    simp only [hparse]

/-- The entry of the client is there and not too old. -/
def Live (cache : Cache HoneyPotCacheEntry) (now : Nat) (key : String) : Prop :=
  ∃ entry, cache.cache.lookup key = some entry ∧ now - entry.lastSeen ≤ cache.ttl

/-- Spec of the handler while there is room for the client: who answers, and what the cache
holds afterwards. -/
structure Handled (paths : List String) (cache : Cache HoneyPotCacheEntry) (v : Visit)
    (key : String) (p : Answer × Cache HoneyPotCacheEntry) : Prop where
  answer : p.1 = .honeypot ∧ (isHoneyPotPath paths v.request.path = true ∨ Live cache v.now key) ∨
    p.1 = .next ∧ ¬ (isHoneyPotPath paths v.request.path = true ∨ Live cache v.now key)
  self : ∀ entry, p.2.cache.lookup key = some entry → p.1 = .honeypot ∧ entry.lastSeen = v.now
  kept : p.1 = .honeypot → ∃ entry, p.2.cache.lookup key = some entry
  others : ∀ k, k ≠ key → p.2.cache.lookup k = cache.cache.lookup k
  ttl : p.2.ttl = cache.ttl
  maxEntries : p.2.maxEntries = cache.maxEntries

theorem handled (hkey : clientKey v.request = some key)
    (hroom : isHoneyPotPath paths v.request.path = true → (cache.getValue v.now key).1 = none →
        ((cache.getValue v.now key).2.cache.len : Int) < cache.maxEntries) :
    Handled paths cache v key (handle paths cache v) := by
  rw [handle_eq paths cache hkey]
  have hlive : (cache.getValue v.now key).1.isSome = true ↔ Live cache v.now key := by
    simp only [Option.isSome_iff_exists, Cache.getValue_fst_eq_some]
    exact ⟨fun ⟨_, old, hold, hfresh, _⟩ => ⟨old, hold, hfresh⟩,
      fun ⟨old, hold, hfresh⟩ => ⟨_, old, hold, hfresh, rfl⟩⟩
  have hself := cache.lookup_getValue_self v.now key
  have hothers : ∀ k, k ≠ key →
      (cache.getValue v.now key).2.cache.lookup k = cache.cache.lookup k :=
    fun k hne => cache.lookup_getValue_of_ne v.now hne
  by_cases hfound : (cache.getValue v.now key).1.isSome = true
  · rw [if_pos hfound]
    obtain ⟨entry, hentry⟩ := Option.isSome_iff_exists.mp hfound
    refine ⟨.inl ⟨rfl, .inr (hlive.mp hfound)⟩, ?_, ?_, hothers, by simp, by simp⟩
    · intro entry' hentry'
      rw [hself, Cache.getValue_fst_eq_some] at hentry'
      obtain ⟨old, -, -, rfl⟩ := hentry'
      exact ⟨rfl, rfl⟩
    · intro _
      exact ⟨entry, hself.trans hentry⟩
  · rw [if_neg hfound]
    have hmiss : (cache.getValue v.now key).1 = none := by simpa using hfound
    split
    · next hpath =>
      have hlookup := fun k => Cache.lookup_cacheValue_of_room
        (by rw [Cache.maxEntries_getValue]; exact hroom hpath hmiss) v.now v.order key k
        (⟨key, v.now⟩ : HoneyPotCacheEntry)
      refine ⟨.inl ⟨rfl, .inl hpath⟩, ?_, ?_, ?_, ?_, ?_⟩
      · intro entry hentry
        rw [addIpToHoneyPot, hlookup, if_pos rfl] at hentry
        cases hentry
        exact ⟨rfl, rfl⟩
      · intro _
        exact ⟨_, by rw [addIpToHoneyPot, hlookup, if_pos rfl]⟩
      · intro k hne
        rw [addIpToHoneyPot, hlookup, if_neg hne, hothers k hne]
      · simp [addIpToHoneyPot]
      · simp [addIpToHoneyPot]
    · next hpath =>
      refine ⟨.inr ⟨rfl, ?_⟩, ?_, ?_, hothers, by simp, by simp⟩
      · rintro (hpath' | hlive')
        · exact hpath hpath'
        · exact hfound (hlive.mpr hlive')
      · intro entry hentry
        rw [hself, hmiss] at hentry
        cases hentry
      · intro h
        cases h

/-! ## Runs -/

/-- The cache knows of the bans of a client: an entry stands for a ban and has the time of
the last visit, and a ban that is not over has its entry. -/
structure Tracks (cache : Cache HoneyPotCacheEntry) (clock : Nat) (key : String)
    (vs : List (Nat × Bool)) : Prop where
  sound : ∀ entry, cache.cache.lookup key = some entry → Banned cache.ttl vs ∧
    ∃ last, vs.getLast? = some last ∧ last.1 = entry.lastSeen
  complete : ∀ last, Banned cache.ttl vs → vs.getLast? = some last →
    clock - last.1 ≤ cache.ttl → ∃ entry, cache.cache.lookup key = some entry

theorem Tracks.live_iff {now : Nat} {vs : List (Nat × Bool)} (h : Tracks cache now key vs) :
    Live cache now key ↔
      Banned cache.ttl vs ∧ ∃ last, vs.getLast? = some last ∧ now - last.1 ≤ cache.ttl := by
  constructor
  · rintro ⟨entry, hentry, hfresh⟩
    obtain ⟨hbanned, last, hlast, hseen⟩ := h.sound entry hentry
    exact ⟨hbanned, last, hlast, by rwa [hseen]⟩
  · rintro ⟨hbanned, last, hlast, hgap⟩
    obtain ⟨entry, hentry⟩ := h.complete last hbanned hlast hgap
    obtain ⟨-, last', hlast', hseen⟩ := h.sound entry hentry
    rw [hlast] at hlast'
    cases hlast'
    exact ⟨entry, hentry, by rwa [← hseen]⟩

theorem Tracks.sweep {now clock : Nat}
    {vs : List (Nat × Bool)} (h : Tracks cache clock key vs) (hnow : now ≤ clock) :
    Tracks (cache.sweep now) clock key vs := by
  refine ⟨fun entry hentry => h.sound entry (Cache.lookup_sweep hentry), ?_⟩
  intro last hbanned hlast hgap
  obtain ⟨entry, hentry⟩ := h.complete last hbanned hlast hgap
  obtain ⟨-, last', hlast', hseen⟩ := h.sound entry hentry
  obtain rfl : last = last' := Option.some.inj (hlast.symm.trans hlast')
  have hold : ¬ entry.lastSeen < now - cache.ttl := by
    have hgap' : clock - last.1 ≤ cache.ttl := hgap
    omega
  refine ⟨entry, ?_⟩
  show (cache.cache.filter _).lookup key = some entry
  rw [GoMap.lookup_filter, hentry, Option.filter_some, if_pos]
  simpa [EvictableEntry.getLastReadAt] using hold

/-- The entries belong to clients that hit a honeypot path, and the options do not change. -/
structure Settled (maxEntries : Int) (ttl : Nat) (keys : Finset String)
    (cache : Cache HoneyPotCacheEntry) : Prop where
  maxEntries : cache.maxEntries = maxEntries
  ttl : cache.ttl = ttl
  known : ∀ key ∈ cache.cache, key ∈ keys

section

variable {paths : List String} {maxEntries : Int} {ttl : Nat}

theorem bannedKeys_concat (ops : List Op) (op : Op) :
    bannedKeys paths (ops ++ [op]) = bannedKeys paths ops ∪ bannedKeys paths [op] := by
  simp [bannedKeys, List.filterMap_append]

variable {cache : Cache HoneyPotCacheEntry} {ops : List Op} {v : Visit} {key : String}

theorem card_bannedKeys_le {op : Op}
    (h : ((bannedKeys paths (ops ++ [op])).card : Int) ≤ maxEntries) :
    ((bannedKeys paths ops).card : Int) ≤ maxEntries := by
  have hsub : (bannedKeys paths ops).card ≤ (bannedKeys paths (ops ++ [op])).card := by
    rw [bannedKeys_concat]
    exact Finset.card_le_card Finset.subset_union_left
  omega

theorem visits_concat (key : String) (ops : List Op) (op : Op) :
    visits paths key (ops ++ [op]) = visits paths key ops ++ visits paths key [op] := by
  simp [visits, List.filterMap_append]

theorem visits_request (key : String) (hkey : clientKey v.request = some key) :
    visits paths key [.request v] = [(v.now, isHoneyPotPath paths v.request.path)] := by
  simp [visits, hkey]

theorem visits_request_of_ne (hkey : clientKey v.request ≠ some key) :
    visits paths key [.request v] = [] := by
  simp [visits, hkey]

theorem Settled.handled (h : Settled maxEntries ttl (bannedKeys paths ops) cache)
    (hroom : ((bannedKeys paths (ops ++ [.request v])).card : Int) ≤ maxEntries)
    (hkey : clientKey v.request = some key) : Handled paths cache v key (handle paths cache v) := by
  apply HoneyPot.handled paths hkey
  intro hpath hmiss
  have hkeys : ∀ k ∈ (cache.getValue v.now key).2.cache,
      k ∈ bannedKeys paths (ops ++ [.request v]) := by
    intro k hk
    obtain ⟨entry, hentry⟩ := GoMap.mem_iff_exists_lookup.mp hk
    rw [bannedKeys_concat, Finset.mem_union]
    left
    apply h.known
    obtain ⟨rfl, old, hold, -, -⟩ | ⟨-, hold⟩ := Cache.lookup_getValue hentry
    · exact GoMap.mem_of_lookup hold
    · exact GoMap.mem_of_lookup hold
  have hself : key ∈ bannedKeys paths (ops ++ [.request v]) := by
    rw [bannedKeys_concat, Finset.mem_union]
    exact .inr (by simp [bannedKeys, hpath, hkey])
  have hmissing : key ∉ (cache.getValue v.now key).2.cache := by
    rw [← AList.lookup_eq_none, Cache.lookup_getValue_self, hmiss]
  have hlen := GoMap.len_lt_card hkeys hself hmissing
  rw [h.maxEntries]
  omega

/-- Step lemma: the options and the origin of the entries. -/
theorem settled_step (op : Op) (h : Settled maxEntries ttl (bannedKeys paths ops) cache)
    (hroom : ((bannedKeys paths (ops ++ [op])).card : Int) ≤ maxEntries) :
    Settled maxEntries ttl (bannedKeys paths (ops ++ [op])) ((server paths).step cache op).2 := by
  have hknown : ∀ k entry, cache.cache.lookup k = some entry →
      k ∈ bannedKeys paths (ops ++ [op]) := by
    intro k entry hentry
    rw [bannedKeys_concat, Finset.mem_union]
    exact .inl (h.known k (GoMap.mem_of_lookup hentry))
  cases op with
  | sweep now =>
    refine ⟨h.maxEntries, h.ttl, fun k hk => ?_⟩
    obtain ⟨entry, hentry⟩ := GoMap.mem_iff_exists_lookup.mp hk
    exact hknown k entry (Cache.lookup_sweep hentry)
  | request v =>
    show Settled _ _ _ (handle paths cache v).2
    cases hkey : clientKey v.request with
    | none =>
      rw [handle_of_none paths cache hkey]
      exact ⟨h.maxEntries, h.ttl, fun k hk => by
        obtain ⟨entry, hentry⟩ := GoMap.mem_iff_exists_lookup.mp hk
        exact hknown k entry hentry⟩
    | some key =>
      have hspec := h.handled hroom hkey
      refine ⟨hspec.maxEntries.trans h.maxEntries, hspec.ttl.trans h.ttl, fun k hk => ?_⟩
      obtain ⟨entry, hentry⟩ := GoMap.mem_iff_exists_lookup.mp hk
      by_cases hself : k = key
      · subst hself
        obtain ⟨hanswer, -⟩ := hspec.self entry hentry
        obtain ⟨-, hpath | ⟨old, hold, -⟩⟩ | ⟨hnext, -⟩ := hspec.answer
        · rw [bannedKeys_concat, Finset.mem_union]
          exact .inr (by simp [bannedKeys, hpath, hkey])
        · exact hknown k old hold
        · rw [hanswer] at hnext
          cases hnext
      · rw [hspec.others k hself] at hentry
        exact hknown k entry hentry

theorem answer_iff_banned (h : Settled maxEntries ttl (bannedKeys paths ops) cache)
    (hroom : ((bannedKeys paths (ops ++ [.request v])).card : Int) ≤ maxEntries)
    (htracks : Tracks cache v.now key (visits paths key ops))
    (hkey : clientKey v.request = some key) : ((handle paths cache v).1 = .honeypot ↔
        Banned ttl (visits paths key (ops ++ [.request v]))) ∧ ((handle paths cache v).1 = .next ↔
        ¬ Banned ttl (visits paths key (ops ++ [.request v]))) := by
  have hbanned : Banned ttl (visits paths key (ops ++ [.request v])) ↔
      isHoneyPotPath paths v.request.path = true ∨ Live cache v.now key := by
    rw [visits_concat, visits_request key hkey, banned_concat, htracks.live_iff, h.ttl]
  rw [hbanned]
  obtain ⟨hanswer, hyes⟩ | ⟨hanswer, hno⟩ := (h.handled hroom hkey).answer
  · simp [hanswer, hyes]
  · simp [hanswer, hno]

/-- Step lemma: the cache keeps track of a client. -/
theorem tracks_step (op : Op) {clock : Nat}
    (h : Settled maxEntries ttl (bannedKeys paths ops) cache)
    (hroom : ((bannedKeys paths (ops ++ [op])).card : Int) ≤ maxEntries) (htime : op.time ≤ clock)
    (key : String) (hnow : Tracks cache op.time key (visits paths key ops))
    (hclock : Tracks cache clock key (visits paths key ops)) :
    Tracks ((server paths).step cache op).2 clock key (visits paths key (ops ++ [op])) := by
  cases op with
  | sweep now =>
    have hvisits : visits paths key (ops ++ [.sweep now]) = visits paths key ops := by
      rw [visits_concat]
      simp [visits]
    rw [hvisits]
    exact hclock.sweep htime
  | request v =>
    show Tracks (handle paths cache v).2 clock key _
    by_cases hkey : clientKey v.request = some key
    · have hspec := h.handled hroom hkey
      obtain ⟨hhoney, -⟩ := answer_iff_banned h hroom hnow hkey
      have hlast : (visits paths key (ops ++ [.request v])).getLast? =
          some (v.now, isHoneyPotPath paths v.request.path) := by
        rw [visits_concat, visits_request key hkey, List.getLast?_concat]
      rw [← h.ttl, ← hspec.ttl] at hhoney
      constructor
      · intro entry hentry
        obtain ⟨hanswer, hseen⟩ := hspec.self entry hentry
        exact ⟨hhoney.mp hanswer, _, hlast, hseen.symm⟩
      · intro _ hbanned _ _
        exact hspec.kept (hhoney.mpr hbanned)
    · rw [visits_concat, visits_request_of_ne hkey, List.append_nil]
      cases hother : clientKey v.request with
      | none =>
        rw [handle_of_none paths cache hother]
        exact hclock
      | some other =>
        have hspec := h.handled hroom hother
        have hne : key ≠ other := by
          rintro rfl
          exact hkey hother
        constructor
        · intro entry hentry
          rw [hspec.others key hne] at hentry
          rw [hspec.ttl]
          exact hclock.sound entry hentry
        · intro last hbanned hlast hgap
          rw [hspec.ttl] at hbanned hgap
          rw [hspec.others key hne]
          exact hclock.complete last hbanned hlast hgap

theorem sorted_of_concat {op : Op} (h : ((ops ++ [op]).map Op.time).Pairwise (· ≤ ·)) :
    (ops.map Op.time).Pairwise (· ≤ ·) ∧ ∀ op' ∈ ops, op'.time ≤ op.time := by
  rw [List.map_append, List.pairwise_append] at h
  obtain ⟨hbefore, -, hle⟩ := h
  exact ⟨hbefore, fun op' hop' => hle _ (List.mem_map_of_mem hop') _ (List.mem_singleton_self _)⟩

/-- Run lemma: the cache keeps track of every client. -/
theorem tracks_run (ttl : Nat) (ops : List Op) (hsorted : (ops.map Op.time).Pairwise (· ≤ ·))
    (hroom : ((bannedKeys paths ops).card : Int) ≤ maxEntries) :
    Settled maxEntries ttl (bannedKeys paths ops)
        ((server paths).run (newCache maxEntries ttl) ops) ∧
      ∀ clock, (∀ op ∈ ops, op.time ≤ clock) → ∀ key,
        Tracks ((server paths).run (newCache maxEntries ttl) ops) clock key
          (visits paths key ops) := by
  induction ops using List.reverseRecOn with
  | nil =>
    refine ⟨⟨rfl, rfl, fun key hkey => by simp [newCache] at hkey⟩, ?_⟩
    intro clock _ key
    constructor
    · intro entry hentry
      simp [newCache] at hentry
    · intro last _ hlast
      simp [visits] at hlast
  | append_singleton ops op ih =>
    obtain ⟨hbefore, hle⟩ := sorted_of_concat hsorted
    obtain ⟨hsettled, htracks⟩ := ih hbefore (card_bannedKeys_le hroom)
    have hnow := htracks op.time hle
    rw [Machine.run_concat]
    refine ⟨settled_step op hsettled hroom, ?_⟩
    intro clock hclock key
    exact tracks_step op hsettled hroom (hclock op (by simp)) key (hnow key)
      (htracks clock (fun op' hop' => hclock op' (by simp [hop'])) key)

/-- A sequential run of requests and sweeps, in which no more clients hit a honeypot path than
the cache has entries. The request of a client that ends it is served by the honeypot exactly
if some visit of the client, this one included, was to a honeypot path and every visit since
then, up to this one, came no later than the time to live after the one before it; otherwise
it reaches `next`. Neither the path of the request nor what other clients do matters. -/
theorem honeypot_iff_banned (ops : List Op) (v : Visit) {key : String}
    (hkey : clientKey v.request = some key)
    (hsorted : ((ops ++ [Op.request v]).map Op.time).Pairwise (· ≤ ·))
    (hroom : ((bannedKeys paths (ops ++ [.request v])).card : Int) ≤ maxEntries) :
    let cache := (server paths).run (newCache maxEntries ttl) ops
    ((handle paths cache v).1 = .honeypot ↔
        Banned ttl (visits paths key (ops ++ [.request v]))) ∧
      ((handle paths cache v).1 = .next ↔
        ¬ Banned ttl (visits paths key (ops ++ [.request v]))) := by
  obtain ⟨hbefore, hle⟩ := sorted_of_concat hsorted
  obtain ⟨hsettled, htracks⟩ := tracks_run ttl ops hbefore (card_bannedKeys_le hroom)
  exact answer_iff_banned hsettled hroom (htracks v.now hle key) hkey

end

def sampleVisit (now : Nat) (path : String) : Visit where
  now := now
  order := []
  request := { remoteAddr := "203.0.113.7:4711", header := ∅, path := path }

/-- A client that hit a path and keeps coming back stays banned, across sweeps. -/
theorem banned_client_returns :
    (handle ["/.env"] ((server ["/.env"]).run (newCache 1 60)
      [.request (sampleVisit 0 "/.env"), .sweep 30, .request (sampleVisit 50 "/"), .sweep 70])
      (sampleVisit 100 "/")).1 = .honeypot := by
  have hkey : clientKey (sampleVisit 100 "/").request = some "203.0.113.7" := by decide +kernel
  have hvisits : visits ["/.env"] "203.0.113.7"
      ([.request (sampleVisit 0 "/.env"), .sweep 30, .request (sampleVisit 50 "/"), .sweep 70] ++
        [.request (sampleVisit 100 "/")]) = [(0, true), (50, false), (100, false)] := by
    decide +kernel
  refine (honeypot_iff_banned _ _ hkey (by decide +kernel) (by decide +kernel)).1.mpr ?_
  rw [hvisits]
  exact ⟨[], (0, true), [(50, false), (100, false)], rfl, rfl, by simp⟩

/-- After a pause longer than the time to live the ban is over: the visit after the pause
reaches `next`, and so does the following one, although it comes right after it. -/
theorem ban_lapses :
    let cache := (server ["/.env"]).run (newCache 1 60)
      [.request (sampleVisit 0 "/.env"), .request (sampleVisit 61 "/")]
    (handle ["/.env"] (newCache 1 60) (sampleVisit 0 "/.env")).1 = .honeypot ∧
      62 - 61 ≤ cache.ttl ∧ (handle ["/.env"] cache (sampleVisit 62 "/")).1 = .next := by
  decide +kernel

end Torii.Middleware.HoneyPot
