import Torii.Middleware.Totp

/-!
# The scopes of TOTP middlewares

What becomes of the verification for one scope when the same browser verifies for another one. A
middleware lets the browser pass when the token of the leading cookie is in its store (`Knows`), and
at most one of the two can do so. Behind a route the middleware of a path rule lets nobody pass at
all.
-/

namespace Torii.Middleware

open Go Session

namespace Totp

variable {M : Manager SessionData}

/-! ## What it does to the leading cookie -/

def World.Knows (w : World M) (k : Which) : Prop := w.stores.Holds k (w.leading.map Prod.snd)

/-- Tokens are in one store at most, and under the key of its middleware. -/
structure Sound (S : Setting M) (w : World M) : Prop where
  known : Known S w.stores
  fresh : ∀ e ∈ w.jar, ∀ n, e.2 = .issued n → n < w.stores.issued
  owned : ∀ e ∈ w.jar, ∀ k data, M.lookup (w.stores.store k) e.2 = some data →
    S.cookieKey k = some e.1
  disjoint : ∀ t k k' data data', M.lookup (w.stores.store k) t = some data →
    M.lookup (w.stores.store k') t = some data' → k = k'

section

variable {S : Setting M} {w w' : World M} {j k : Which}

theorem name_of_cookieKey {key : CookieKey} (h : S.cookieKey k = some key) :
    key.name = cookieName := by
  obtain ⟨domain, -, rfl⟩ := Option.map_eq_some_iff.mp h
  rfl

theorem Sound.key_of_knows (h : Sound S w) (hknows : w.Knows k) :
    ∃ e, w.leading = some e ∧ S.cookieKey k = some e.1 := by
  obtain ⟨t, data, ht, hdata⟩ := hknows
  obtain ⟨e, he, rfl⟩ := Option.map_eq_some_iff.mp ht
  exact ⟨e, he, h.owned e (CookieJar.mem_of_leading he) k data hdata⟩

variable {cookies : List (Which × Token)} {jar : CookieJar Token} {e : CookieKey × Token}

theorem mem_setCookies (h : e ∈ cookies.foldl S.setCookie jar) :
    e ∈ jar ∨ ∃ c ∈ cookies, S.cookieKey c.1 = some e.1 ∧ e.2 = c.2 := by
  induction cookies generalizing jar with
  | nil => exact .inl h
  | cons c cookies ih =>
    obtain hjar | ⟨c', hc', hkey, hvalue⟩ := ih h
    · rw [Setting.setCookie] at hjar
      split at hjar
      · next key hkey =>
        obtain rfl | hold := mem_assign hjar
        · exact .inr ⟨c, List.mem_cons_self, hkey, rfl⟩
        · exact .inl hold
      · exact .inl hjar
    · exact .inr ⟨c', List.mem_cons_of_mem _ hc', hkey, hvalue⟩

/-- The leading cookie after a verification; `again` says whether a middleware further out has
set its cookie once more. -/
def leadingAfter (S : Setting M) (j : Which) (again : Bool) (fresh : Token) :
    Option (CookieKey × Token) → Option (CookieKey × Token)
  | none => (S.cookieKey j).map (·, fresh)
  | some e => if S.cookieKey j = some e.1 ∧ again = false then some (e.1, fresh) else some e

theorem leading_setCookie (jar : CookieJar Token) (c : Which × Token) :
    CookieJar.leading cookieName (S.setCookie jar c) =
      leadingAfter S c.1 false c.2 (jar.leading cookieName) := by
  rw [Setting.setCookie]
  cases hkey : S.cookieKey c.1 with
  | none => cases jar.leading cookieName <;> simp [leadingAfter, hkey]
  | some key =>
    dsimp only
    rw [CookieJar.leading_assign (name_of_cookieKey hkey)]
    cases jar.leading cookieName with
    | none => simp [leadingAfter, hkey]
    | some e =>
      simp only [leadingAfter, hkey, Option.some.injEq, and_true]
      by_cases hsame : key = e.1 <;> simp [hsame, eq_comm]

theorem leading_setCookies (he : jar.leading cookieName = some e) (h : ∀ c ∈ cookies, c.2 = e.2) :
    CookieJar.leading cookieName (cookies.foldl S.setCookie jar) = some e := by
  induction cookies generalizing jar with
  | nil => exact he
  | cons c cookies ih =>
    obtain ⟨hc, hcookies⟩ := List.forall_mem_cons.mp h
    refine ih ?_ hcookies
    rw [leading_setCookie, he, leadingAfter, hc]
    split <;> rfl

theorem Resaved.eq_nil {s : Stores M} (h : Resaved s none cookies) : cookies = [] := by
  rw [List.eq_nil_iff_forall_not_mem]
  intro c hc
  cases (h c hc).1

theorem leading_resaved (h : Resaved w.stores (w.leading.map Prod.snd) cookies) :
    CookieJar.leading cookieName (cookies.foldl S.setCookie w.jar) = w.leading := by
  cases hleading : w.leading with
  | none =>
    rw [hleading] at h
    rw [h.eq_nil]
    exact hleading
  | some e =>
    rw [hleading] at h
    exact leading_setCookies hleading fun c hc => (Option.some.inj (h c hc).1).symm

theorem Sound.mem_of_resaved (hw : Sound S w)
    (h : Resaved w.stores (w.leading.map Prod.snd) cookies) {c : Which × Token} (hc : c ∈ cookies)
    {key : CookieKey} (hkey : S.cookieKey c.1 = some key) : (key, c.2) ∈ w.jar := by
  obtain ⟨htoken, hholds⟩ := h c hc
  obtain ⟨e, he, hkey'⟩ := hw.key_of_knows (k := c.1) hholds
  rw [he] at htoken
  obtain rfl := Option.some.inj (hkey.symm.trans hkey')
  rw [← Option.some.inj htoken]
  exact CookieJar.mem_of_leading he

theorem leading_verified (hw : Sound S w) {again : List (Which × Token)} {fresh : Token}
    (hagain : Resaved w.stores (w.leading.map Prod.snd) again) :
    CookieJar.leading cookieName (((j, fresh) :: again).foldl S.setCookie w.jar) =
      leadingAfter S j (! again.isEmpty) fresh w.leading := by
  rw [List.foldl_cons]
  cases again with
  | nil => exact leading_setCookie w.jar (j, fresh)
  | cons c again =>
    -- who sets its cookie again owns the leading one, and gets the lead back
    obtain ⟨e, he, hkey⟩ := hw.key_of_knows (k := c.1) (hagain c List.mem_cons_self).2
    rw [he] at hagain ⊢
    have htokens : ∀ c' ∈ c :: again, c'.2 = e.2 :=
      fun c' hc' => (Option.some.inj (hagain c' hc').1).symm
    obtain ⟨hc, htokens⟩ := List.forall_mem_cons.mp htokens
    rw [List.foldl_cons, leadingAfter, if_neg (by simp)]
    refine leading_setCookies ?_ htokens
    rw [leading_setCookie, leading_setCookie, show w.jar.leading cookieName = some e from he,
      leadingAfter, hc]
    split <;> simp [leadingAfter, hkey]

end

/-! ## Steps -/

inductive Step (S : Setting M) (w : World M) (k : Which) : Outcome → World M → Prop where
  | quiet {outcome w'} (hsame : Same w.stores w'.stores) (hleading : w'.leading = w.leading)
      (hanswer : ∀ j, outcome ≠ .answered j .redirectAfterVerification)
      (hpassed : outcome = .passed ↔ ∀ j ∈ S.arrangement.chain k, w.Knows j) :
      Step S w k outcome w'
  | verified {outer j inner again w'} (hchain : S.arrangement.chain k = outer ++ j :: inner)
      (houter : ∀ i ∈ outer, w.Knows i) (hj : ¬ w.Knows j)
      (hgrown : Grown S j w.stores w'.stores)
      (hleading : w'.leading = leadingAfter S j again (.issued w.stores.issued) w.leading)
      (hagain : again = false ↔ ∀ i ∈ outer, (S.site i).session.idleTimeout ≤ 0) :
      Step S w k (.answered j .redirectAfterVerification) w'

theorem nodup_chain (arrangement : Arrangement) (k : Which) : (arrangement.chain k).Nodup := by
  cases arrangement with
  | pathRules => exact List.nodup_singleton k
  | routeAndRule outer =>
    rw [Arrangement.chain]
    split
    · exact List.nodup_singleton outer
    · next hne => simpa using Ne.symm hne

section

variable {S : Setting M} {w w' : World M} {j k : Which} {outcome : Outcome}

theorem step_cases (hw : Sound S w) (k : Which) (r : Request) :
    Step S w k (S.browsing.step w (k, r)).1 (S.browsing.step w (k, r)).2 := by
  have hserved := served hw.known r (w.leading.map Prod.snd) (nodup_chain S.arrangement k)
  simp only [Setting.browsing]
  generalize S.serve r (w.leading.map Prod.snd) (S.arrangement.chain k) w.stores = result
    at hserved
  obtain ⟨outcome, cookies, stores⟩ := result
  cases hserved with
  | quiet hsame hcookies hanswer hpassed =>
    exact .quiet hsame (leading_resaved hcookies) hanswer hpassed
  | verified outer hchain houter hj hgrown hagain hsilent =>
    refine .verified hchain houter hj hgrown (leading_verified hw hagain) ?_
    rw [← hsilent]
    simp

theorem Sound.step_of_answer (hw : Sound S w) {request : Which × Request}
    (h : (S.browsing.step w request).1 = outcome) :
    Step S w request.1 outcome (S.browsing.step w request).2 :=
  h ▸ step_cases hw request.1 request.2

theorem Known.lookup_next {s : Stores M} (h : Known S s) (k : Which) :
    M.lookup (s.store k) (.issued s.issued) = none := by
  rw [Option.eq_none_iff_forall_ne_some]
  intro data hdata
  obtain ⟨n, hn, heq⟩ := h.issued k _ data hdata
  have := Token.issued.inj heq
  omega

theorem Sound.of_same (hw : Sound S w) (hsame : Same w.stores w'.stores)
    (hjar : ∀ e ∈ w'.jar, e ∈ w.jar) : Sound S w' where
  known.scope k t data hdata := by
    rw [hsame.lookup] at hdata
    exact hw.known.scope k t data hdata
  known.issued k t data hdata := by
    rw [hsame.lookup] at hdata
    rw [hsame.issued]
    exact hw.known.issued k t data hdata
  fresh e he n hn := by
    rw [hsame.issued]
    exact hw.fresh e (hjar e he) n hn
  owned e he k data hdata := by
    rw [hsame.lookup] at hdata
    exact hw.owned e (hjar e he) k data hdata
  disjoint t k k' data data' hdata hdata' := by
    rw [hsame.lookup] at hdata hdata'
    exact hw.disjoint t k k' data data' hdata hdata'

theorem Known.grown {s s' : Stores M} (h : Known S s) (hgrown : Grown S j s s') : Known S s' where
  scope k t data hdata := by
    rw [hgrown.lookup] at hdata
    split at hdata
    · next hsame =>
      obtain rfl := Option.some.inj hdata
      rw [hsame.1, Option.map_some]
    · exact h.scope k t data hdata
  issued k t data hdata := by
    rw [hgrown.lookup] at hdata
    rw [hgrown.issued]
    split at hdata
    · next hsame => exact ⟨_, Nat.lt_succ_self _, hsame.2⟩
    · obtain ⟨n, hn, rfl⟩ := h.issued k t data hdata
      exact ⟨n, Nat.lt_succ_of_lt hn, rfl⟩

theorem Sound.of_grown (hw : Sound S w) (hgrown : Grown S j w.stores w'.stores)
    (hjar : ∀ e ∈ w'.jar,
      e ∈ w.jar ∨ S.cookieKey j = some e.1 ∧ e.2 = .issued w.stores.issued) : Sound S w' where
  known := hw.known.grown hgrown
  fresh e he n hn := by
    rw [hgrown.issued]
    obtain hold | ⟨-, hvalue⟩ := hjar e he
    · exact Nat.lt_succ_of_lt (hw.fresh e hold n hn)
    · rw [hvalue] at hn
      rw [← Token.issued.inj hn]
      exact Nat.lt_succ_self _
  owned e he k data hdata := by
    rw [hgrown.lookup] at hdata
    obtain hold | ⟨hkey, hvalue⟩ := hjar e he
    · split at hdata
      · next hsame => exact absurd (hw.fresh e hold _ hsame.2) (Nat.lt_irrefl _)
      · exact hw.owned e hold k data hdata
    · rw [hvalue, hw.known.lookup_next] at hdata
      split at hdata
      · next hsame => rwa [hsame.1]
      · cases hdata
  disjoint t k k' data data' hdata hdata' := by
    rw [hgrown.lookup] at hdata hdata'
    split at hdata
    · next hsame =>
      split at hdata'
      · next hsame' => exact hsame.1.trans hsame'.1.symm
      · rw [hsame.2, hw.known.lookup_next] at hdata'
        cases hdata'
    · split at hdata'
      · next hsame' =>
        rw [hsame'.2, hw.known.lookup_next] at hdata
        cases hdata
      · exact hw.disjoint t k k' data data' hdata hdata'

theorem Sound.step (hw : Sound S w) (request : Which × Request) :
    Sound S (S.browsing.step w request).2 := by
  have hserved := served hw.known request.2 (w.leading.map Prod.snd)
    (nodup_chain S.arrangement request.1)
  simp only [Setting.browsing]
  generalize S.serve request.2 (w.leading.map Prod.snd) (S.arrangement.chain request.1) w.stores =
    result at hserved
  obtain ⟨outcome, cookies, stores⟩ := result
  cases hserved with
  | quiet hsame hcookies =>
    refine hw.of_same hsame fun e he => ?_
    obtain hold | ⟨c, hc, hkey, hvalue⟩ := mem_setCookies he
    · exact hold
    · have hmem := hw.mem_of_resaved hcookies hc hkey
      rwa [← hvalue] at hmem
  | verified outer hchain houter hj hgrown hagain hsilent =>
    refine hw.of_grown hgrown fun e he => ?_
    obtain hold | ⟨c, hc, hkey, hvalue⟩ := mem_setCookies he
    · exact .inl hold
    · obtain rfl | hc := List.mem_cons.mp hc
      · exact .inr ⟨hkey, hvalue⟩
      · have hmem := hw.mem_of_resaved hagain hc hkey
        rw [← hvalue] at hmem
        exact .inl hmem

theorem sound_initial (S : Setting M) (jar : CookieJar String) :
    Sound S (Setting.initial jar) where
  known := ⟨fun k t data h => by simp at h, fun k t data h => by simp at h⟩
  fresh e he n hn := by
    obtain ⟨e', -, rfl⟩ := List.mem_map.mp he
    cases hn
  owned e he k data h := by simp at h
  disjoint t k k' data data' h := by simp at h

theorem sound_run (S : Setting M) (jar : CookieJar String) (ops : List (Which × Request)) :
    Sound S (S.browsing.run (Setting.initial jar) ops) :=
  S.browsing.run_invariant (Sound S) (fun _ request h => h.step request) (sound_initial S jar) ops

end

/-! ## Whom the leading cookie belongs to -/

section

variable {S : Setting M} {w w' : World M} {j k : Which} {outcome : Outcome}

theorem Step.knows_of_leading (h : Step S w k outcome w') (hleading : w'.leading = w.leading)
    (hknows : w.Knows j) : w'.Knows j := by
  obtain ⟨t, data, ht, hdata⟩ := hknows
  rw [World.Knows, hleading]
  cases h with
  | quiet hsame => exact ⟨t, data, ht, (hsame.lookup j t).trans hdata⟩
  | @verified outer j' inner again _ hchain houter hj hgrown =>
    refine ⟨t, data, ht, ?_⟩
    rw [hgrown.lookup, if_neg, hdata]
    rintro ⟨rfl, -⟩
    exact hj ⟨t, data, ht, hdata⟩

variable {e : CookieKey × Token}

theorem Step.leading_key (h : Step S w k outcome w') (he : w.leading = some e) :
    ∃ t, w'.leading = some (e.1, t) := by
  cases h with
  | quiet hsame hleading => exact ⟨e.2, hleading.trans he⟩
  | verified hchain houter hj hgrown hleading =>
    rw [hleading, he, leadingAfter]
    split
    · exact ⟨_, rfl⟩
    · exact ⟨e.2, rfl⟩

theorem Step.leading_of_none (h : Step S w k outcome w') (hnone : w.leading = none)
    (he : w'.leading = some e) :
    ∃ j, outcome = .answered j .redirectAfterVerification ∧ S.cookieKey j = some e.1 := by
  cases h with
  | quiet hsame hleading =>
    rw [hleading, hnone] at he
    cases he
  | verified hchain houter hj hgrown hleading =>
    rw [hleading, hnone, leadingAfter] at he
    obtain ⟨key, hkey, rfl⟩ := Option.map_eq_some_iff.mp he
    exact ⟨_, rfl, hkey⟩

theorem Step.keeps (hw : Sound S w) (h : Step S w k outcome w') (hknows : w.Knows j)
    (hkeep : ∀ outer i inner, outcome = .answered i .redirectAfterVerification → i ≠ j →
      S.arrangement.chain k = outer ++ i :: inner → S.cookieKey i = S.cookieKey j →
        ∃ i' ∈ outer, 0 < (S.site i').session.idleTimeout) :
    w'.Knows j := by
  refine h.knows_of_leading ?_ hknows
  obtain ⟨e, he, hkey⟩ := hw.key_of_knows hknows
  cases h with
  | quiet hsame hleading => exact hleading
  | @verified outer i inner again _ hchain houter hi hgrown hleading hagain =>
    rw [hleading, he, leadingAfter, if_neg]
    rintro ⟨hikey, hno⟩
    have hne : i ≠ j := by
      rintro rfl
      exact hi hknows
    obtain ⟨i', hi', hidle⟩ := hkeep outer i inner rfl hne hchain (hikey.trans hkey.symm)
    have := hagain.mp hno i' hi'
    omega

theorem Step.knows_verified (h : Step S w k (.answered j .redirectAfterVerification) w')
    (hfree : ∀ e, w.leading = some e → S.cookieKey j = some e.1)
    (hkey : S.cookieKey j ≠ none)
    (hidle : ∀ i ∈ S.arrangement.chain k, i ≠ j → (S.site i).session.idleTimeout ≤ 0) :
    w'.Knows j := by
  cases h with
  | quiet hsame hleading hanswer => exact absurd rfl (hanswer j)
  | @verified outer _ inner again _ hchain houter hj hgrown hleading hagain' =>
    have hsilent : ∀ i ∈ outer, (S.site i).session.idleTimeout ≤ 0 := by
      intro i hi
      refine hidle i (by simp [hchain, hi]) ?_
      rintro rfl
      exact hj (houter i hi)
    have hlead : w'.leading.map Prod.snd = some (.issued w.stores.issued) := by
      rw [hleading]
      cases he : w.leading with
      | none =>
        obtain ⟨key, hkey⟩ := Option.ne_none_iff_exists'.mp hkey
        simp [leadingAfter, hkey]
      | some e =>
        rw [leadingAfter, if_pos ⟨hfree e he, hagain'.mpr hsilent⟩]
        rfl
    refine ⟨.issued w.stores.issued, some ⟨(S.site j).label, (S.site j).scope⟩, hlead, ?_⟩
    rw [hgrown.lookup, if_pos ⟨rfl, rfl⟩]

theorem Step.passed_iff (h : Step S w k outcome w') :
    outcome = .passed ↔ ∀ j ∈ S.arrangement.chain k, w.Knows j := by
  cases h with
  | quiet hsame hleading hanswer hpassed => exact hpassed
  | verified hchain houter hj =>
    constructor
    · intro hpassed
      cases hpassed
    · intro hall
      exact absurd (hall _ (by simp [hchain])) hj

theorem Step.of_verified (h : Step S w k (.answered j .redirectAfterVerification) w') :
    ∃ outer inner, S.arrangement.chain k = outer ++ j :: inner ∧ (∀ i ∈ outer, w.Knows i) ∧
      ¬ w.Knows j := by
  cases h with
  | quiet hsame hleading hanswer => exact absurd rfl (hanswer j)
  | verified hchain houter hj => exact ⟨_, _, hchain, houter, hj⟩

theorem Step.empty (h : Step S w k outcome w')
    (houtcome : outcome ≠ .answered j .redirectAfterVerification)
    (hempty : ∀ t, M.lookup (w.stores.store j) t = none) (t : Token) :
    M.lookup (w'.stores.store j) t = none := by
  cases h with
  | quiet hsame => exact (hsame.lookup j t).trans (hempty t)
  | verified hchain houter hi hgrown =>
    rw [hgrown.lookup, if_neg, hempty]
    rintro ⟨rfl, -⟩
    exact houtcome rfl

theorem attempt_verified (hw : Sound S w) {outer inner : List Which}
    (hchain : S.arrangement.chain k = outer ++ j :: inner) (houter : ∀ i ∈ outer, w.Knows i)
    (hj : ¬ w.Knows j) :
    (S.browsing.step w (k, attempt)).1 = .answered j .redirectAfterVerification := by
  show (S.serve attempt _ (S.arrangement.chain k) w.stores).1 = _
  rw [hchain]
  exact serve_attempt hw.known inner houter hj

end

/-! ## Independence -/

/-- After a run in which the browser verified for the first scope and later for the second one,
every request for the first one passes. -/
def Independent (S : Setting M) (jar : CookieJar String) : Prop :=
  ∀ before request₁ middle request₂ after r,
    (S.browsing.step (S.browsing.run (Setting.initial jar) before) request₁).1 =
      .answered .first .redirectAfterVerification →
    (S.browsing.step (S.browsing.run (Setting.initial jar) (before ++ request₁ :: middle))
      request₂).1 = .answered .second .redirectAfterVerification →
    (S.browsing.step (S.browsing.run (Setting.initial jar)
      (before ++ request₁ :: middle ++ request₂ :: after)) (.first, r)).1 = .passed

/-- The cookie of the middleware leads, or there is none that leads. -/
def Free (S : Setting M) (jar : CookieJar String) (k : Which) : Prop :=
  ∀ e, jar.leading cookieName = some e → S.cookieKey k = some e.1

/-- The settings in which the first scope survives. -/
def Survives (S : Setting M) (jar : CookieJar String) : Prop :=
  match S.arrangement with
  | .pathRules =>
    S.cookieKey .first ≠ none ∧ S.cookieKey .first ≠ S.cookieKey .second ∧ Free S jar .first
  | .routeAndRule outer =>
    ¬ (S.cookieKey .first ≠ none ∧ S.cookieKey .first = S.cookieKey .second ∧
      (S.site outer).session.idleTimeout ≤ 0 ∧ Free S jar .first)

section

variable {S : Setting M} {jar : CookieJar String}

theorem leading_initial (jar : CookieJar String) :
    (Setting.initial jar : World M).leading =
      (jar.leading cookieName).map fun e => (e.1, .foreign e.2) := by
  rw [World.leading, Setting.initial, CookieJar.leading, List.find?_map]
  rfl

variable {j : Which}

theorem not_knows_of_empty {w : World M} (h : ∀ t, M.lookup (w.stores.store j) t = none) :
    ¬ w.Knows j := by
  rintro ⟨t, data, -, hdata⟩
  rw [h] at hdata
  cases hdata

theorem Sound.eq_of_knows {w : World M} (hw : Sound S w) {k : Which} (hj : w.Knows j)
    (hk : w.Knows k) : j = k := by
  obtain ⟨t, data, ht, hdata⟩ := hj
  obtain ⟨t', data', ht', hdata'⟩ := hk
  rw [ht] at ht'
  obtain rfl := Option.some.inj ht'
  exact hw.disjoint t j k data data' hdata hdata'

/-- A middleware lets the browser pass as long as every step keeps it. -/
def Keeping (S : Setting M) (j : Which) : Prop :=
  ∀ w request, Sound S w → w.Knows j → (S.browsing.step w request).2.Knows j

theorem Keeping.run (h : Keeping S j) {before after : List (Which × Request)}
    (hknows : (S.browsing.run (Setting.initial jar) before).Knows j) :
    (S.browsing.run (Setting.initial jar) (before ++ after)).Knows j := by
  induction after using List.reverseRecOn with
  | nil => rwa [List.append_nil]
  | append_singleton after request ih =>
    rw [← List.append_assoc, Machine.run_concat]
    exact h _ request (sound_run S jar _) ih

theorem leading_run {e : CookieKey × String} (he : jar.leading cookieName = some e)
    (ops : List (Which × Request)) :
    ∃ t, (S.browsing.run (Setting.initial jar) ops).leading = some (e.1, t) := by
  induction ops using List.reverseRecOn with
  | nil => exact ⟨.foreign e.2, by rw [Machine.run_nil, leading_initial, he]; rfl⟩
  | append_singleton ops request ih =>
    obtain ⟨t, ht⟩ := ih
    rw [Machine.run_concat]
    exact (step_cases (sound_run S jar ops) request.1 request.2).leading_key ht

theorem keeping_of_ne (hne : S.cookieKey .first ≠ S.cookieKey .second) (j : Which) :
    Keeping S j := by
  rintro w ⟨k, r⟩ hw hknows
  refine (step_cases hw k r).keeps hw hknows ?_
  intro outer i inner _ hij _ hkey
  cases i with
  | first =>
    cases j with
    | first => exact absurd rfl hij
    | second => exact absurd hkey hne
  | second =>
    cases j with
    | first => exact absurd hkey.symm hne
    | second => exact absurd rfl hij

/-! ### Two path rules -/

section

variable (harr : S.arrangement = .pathRules)
include harr

theorem eq_of_mem_chain {i j k : Which} (hi : i ∈ S.arrangement.chain k)
    (hj : j ∈ S.arrangement.chain k) : i = j := by
  rw [harr] at hi hj
  exact (List.mem_singleton.mp hi).trans (List.mem_singleton.mp hj).symm

theorem knows_of_pathRules {w w' : World M} {j k : Which}
    (h : Step S w k (.answered j .redirectAfterVerification) w')
    (hfree : ∀ e, w.leading = some e → S.cookieKey j = some e.1)
    (hkey : S.cookieKey j ≠ none) : w'.Knows j := by
  refine h.knows_verified hfree hkey fun i hi hij => absurd ?_ hij
  obtain ⟨outer, inner, hchain, -⟩ := h.of_verified
  exact eq_of_mem_chain harr hi (by simp [hchain])

theorem clear_step (hne : S.cookieKey .first ≠ S.cookieKey .second) {w : World M} (hw : Sound S w)
    (h : w.Knows .second ∨ ∀ e, w.leading = some e → S.cookieKey .first = some e.1)
    (request : Which × Request) :
    let w' := (S.browsing.step w request).2
    w'.Knows .second ∨ ∀ e, w'.leading = some e → S.cookieKey .first = some e.1 := by
  obtain hknows | hclear := h
  · exact .inl (keeping_of_ne hne .second w request hw hknows)
  obtain ⟨k, r⟩ := request
  have hstep := step_cases hw k r
  generalize S.browsing.step w (k, r) = next at hstep
  obtain ⟨outcome, w'⟩ := next
  cases hleading : w.leading with
  | some e =>
    obtain ⟨t, ht⟩ := hstep.leading_key hleading
    right
    intro e' he'
    rw [ht] at he'
    obtain rfl := Option.some.inj he'
    exact hclear e hleading
  | none =>
    cases hleading' : w'.leading with
    | none => exact .inr fun e he => by cases hleading'.symm.trans he
    | some e =>
      obtain ⟨j, rfl, hkey⟩ := hstep.leading_of_none hleading hleading'
      cases j with
      | first =>
        right
        intro e' he'
        obtain rfl := Option.some.inj (hleading'.symm.trans he')
        exact hkey
      | second =>
        left
        exact knows_of_pathRules harr hstep (by simp [hleading]) (by simp [hkey])

theorem clear_run (hne : S.cookieKey .first ≠ S.cookieKey .second) (hfree : Free S jar .first)
    (ops : List (Which × Request)) :
    let w := S.browsing.run (Setting.initial jar) ops
    w.Knows .second ∨ ∀ e, w.leading = some e → S.cookieKey .first = some e.1 := by
  induction ops using List.reverseRecOn with
  | nil =>
    right
    intro e he
    rw [Machine.run_nil, leading_initial] at he
    obtain ⟨e', he', rfl⟩ := Option.map_eq_some_iff.mp he
    exact hfree e' he'
  | append_singleton ops request ih =>
    rw [Machine.run_concat]
    exact clear_step harr hne (sound_run S jar ops) ih request

theorem independent_of_pathRules (hkey : S.cookieKey .first ≠ none)
    (hne : S.cookieKey .first ≠ S.cookieKey .second) (hfree : Free S jar .first) :
    Independent S jar := by
  intro before request₁ middle request₂ after r hfirst hsecond
  have hw := sound_run S jar before
  -- after the first verification one of the two lets the browser pass from then on
  have hone : (S.browsing.run (Setting.initial jar) (before ++ [request₁])).Knows .first ∨
      (S.browsing.run (Setting.initial jar) (before ++ [request₁])).Knows .second := by
    rw [Machine.run_concat]
    obtain hknows | hclear := clear_run harr hne hfree before
    · exact .inr (keeping_of_ne hne .second _ request₁ hw hknows)
    · exact .inl (knows_of_pathRules harr (hw.step_of_answer hfirst) hclear hkey)
  have hsplit : before ++ request₁ :: middle = before ++ [request₁] ++ middle := by simp
  obtain ⟨-, -, -, -, hnot⟩ := ((sound_run S jar _).step_of_answer hsecond).of_verified
  have hknows : (S.browsing.run (Setting.initial jar) (before ++ request₁ :: middle)).Knows
      .first := by
    rw [hsplit] at hnot ⊢
    obtain hknows | hknows := hone
    · exact (keeping_of_ne hne .first).run hknows
    · exact absurd ((keeping_of_ne hne .second).run hknows) hnot
  refine (step_cases (sound_run S jar _) .first r).passed_iff.mpr fun j hj => ?_
  rw [harr] at hj
  rw [List.mem_singleton.mp hj]
  exact (keeping_of_ne hne .first).run hknows

theorem survives_of_pathRules (h : Independent S jar) :
    S.cookieKey .first ≠ none ∧ S.cookieKey .first ≠ S.cookieKey .second ∧ Free S jar .first := by
  -- verify for the first scope and then for the second one
  have hchain : ∀ k, S.arrangement.chain k = [] ++ k :: [] := by
    intro k
    rw [harr]
    rfl
  have hfirst : (S.browsing.step (Setting.initial jar) (.first, attempt)).1 =
      .answered .first .redirectAfterVerification :=
    attempt_verified (sound_initial S jar) (hchain .first) (by simp)
      (not_knows_of_empty (lookup_initial jar _))
  have hstep₁ := step_cases (sound_initial S jar) .first attempt
  have hw₁ := (sound_initial S jar).step (.first, attempt)
  have hsecond : (S.browsing.step (S.browsing.step (Setting.initial jar) (.first, attempt)).2
      (.second, attempt)).1 = .answered .second .redirectAfterVerification := by
    refine attempt_verified hw₁ (hchain .second) (by simp) (not_knows_of_empty ?_)
    exact hstep₁.empty (by rw [hfirst]; simp) (lookup_initial jar _)
  have hstep₂ := hw₁.step_of_answer hsecond
  have hw₂ := hw₁.step (.second, attempt)
  have hpassed := h [] (.first, attempt) [] (.second, attempt) [] attempt hfirst hsecond
  have hknows := (step_cases hw₂ .first attempt).passed_iff.mp hpassed .first
    (by rw [hchain]; exact List.mem_singleton_self _)
  obtain ⟨e, he, hkey⟩ := hw₂.key_of_knows hknows
  refine ⟨by simp [hkey], fun hsame => ?_, fun e₀ he₀ => ?_⟩
  · -- with the same key the second middleware would have taken the lead
    have hknows' := knows_of_pathRules harr hstep₂ (fun e₁ he₁ => ?_) (by simp [← hsame, hkey])
    · cases hw₂.eq_of_knows hknows hknows'
    · obtain ⟨t, ht⟩ := hstep₂.leading_key he₁
      obtain rfl := Option.some.inj (he.symm.trans ht)
      rw [← hsame, hkey]
  · obtain ⟨t, ht⟩ := leading_run (S := S) he₀ [(.first, attempt), (.second, attempt)]
    obtain rfl := Option.some.inj (he.symm.trans ht)
    exact hkey

end

/-! ### A route and a path rule of it -/

def Which.other : Which → Which
  | .first => .second
  | .second => .first

section

variable {o : Which} (harr : S.arrangement = .routeAndRule o)
include harr

theorem chain_outer : S.arrangement.chain o = [] ++ o :: [] := by
  rw [harr, Arrangement.chain, if_pos rfl]
  rfl

theorem chain_other : S.arrangement.chain o.other = [o] ++ o.other :: [] := by
  rw [harr, Arrangement.chain, if_neg (by cases o <;> decide)]
  rfl

theorem outer_of_chain {i k : Which} {outer inner : List Which}
    (hchain : S.arrangement.chain k = outer ++ i :: inner) (hi : i ≠ o) : o ∈ outer := by
  rw [harr, Arrangement.chain] at hchain
  cases outer with
  | nil => split at hchain <;> exact absurd (List.cons.inj hchain).1.symm hi
  | cons => split at hchain <;> simp [(List.cons.inj hchain).1]

theorem keeping_of_idle (hidle : 0 < (S.site o).session.idleTimeout) : Keeping S o := by
  rintro w ⟨k, r⟩ hw hknows
  refine (step_cases hw k r).keeps hw hknows ?_
  intro outer i inner _ hne hchain _
  exact ⟨o, outer_of_chain harr hchain hne, hidle⟩

theorem keeping_of_survives (h : Survives S jar) {ops : List (Which × Request)}
    (hknows : (S.browsing.run (Setting.initial jar) ops).Knows o) : Keeping S o := by
  by_cases hsame : S.cookieKey .first = S.cookieKey .second
  · by_cases hidle : 0 < (S.site o).session.idleTimeout
    · exact keeping_of_idle harr hidle
    · obtain ⟨e, he, hkey⟩ := (sound_run S jar ops).key_of_knows hknows
      have hkey' : S.cookieKey .first = some e.1 := by
        cases o with
        | first => exact hkey
        | second => exact hsame.trans hkey
      rw [Survives, harr] at h
      refine absurd ⟨by simp [hkey'], hsame, Int.not_lt.mp hidle, fun e₀ he₀ => ?_⟩ h
      obtain ⟨t, ht⟩ := leading_run (S := S) he₀ ops
      obtain rfl := Option.some.inj (he.symm.trans ht)
      exact hkey'
  · exact keeping_of_ne hsame o

theorem independent_of_routeAndRule (h : Survives S jar) : Independent S jar := by
  intro before request₁ middle request₂ after r hfirst hsecond
  -- the state in which somebody verifies behind the route
  have houter : ∀ ops (request : Which × Request) i, i ≠ o →
      (S.browsing.step (S.browsing.run (Setting.initial jar) ops) request).1 =
        .answered i .redirectAfterVerification →
      (S.browsing.run (Setting.initial jar) ops).Knows o := by
    intro ops request i hi hverified
    obtain ⟨outer, inner, hchain, hknows, -⟩ :=
      ((sound_run S jar ops).step_of_answer hverified).of_verified
    exact hknows o (outer_of_chain harr hchain hi)
  cases o with
  | first =>
    have hknows := houter _ request₂ .second (by decide) hsecond
    refine (step_cases (sound_run S jar _) .first r).passed_iff.mpr fun j hj => ?_
    rw [chain_outer harr] at hj
    rw [List.mem_singleton.mp hj]
    exact (keeping_of_survives harr h hknows).run hknows
  | second =>
    have hknows := houter _ request₁ .first (by decide) hfirst
    obtain ⟨-, -, -, -, hnot⟩ := ((sound_run S jar _).step_of_answer hsecond).of_verified
    exact absurd ((keeping_of_survives harr h hknows).run hknows) hnot

theorem attempt_outer {w : World M} (hw : Sound S w) (hnot : ¬ w.Knows o)
    (hkey : S.cookieKey o ≠ none) (hfree : ∀ e, w.leading = some e → S.cookieKey o = some e.1) :
    (S.browsing.step w (o, attempt)).1 = .answered o .redirectAfterVerification ∧
      (S.browsing.step w (o, attempt)).2.Knows o := by
  have hverified := attempt_verified hw (chain_outer harr) (by simp) hnot
  have hstep := hw.step_of_answer hverified
  refine ⟨hverified, hstep.knows_verified hfree hkey fun i hi hne => ?_⟩
  rw [chain_outer harr] at hi
  exact absurd (List.mem_singleton.mp hi) hne

theorem attempt_other {w : World M} (hw : Sound S w) (hknows : w.Knows o)
    (hsame : S.cookieKey o.other = S.cookieKey o)
    (hidle : (S.site o).session.idleTimeout ≤ 0) :
    (S.browsing.step w (o.other, attempt)).1 = .answered o.other .redirectAfterVerification ∧
      (S.browsing.step w (o.other, attempt)).2.Knows o.other := by
  have hnot : ¬ w.Knows o.other := by
    intro hother
    have heq := hw.eq_of_knows hknows hother
    cases o <;> cases heq
  have hverified := attempt_verified hw (chain_other harr) (by simpa using hknows) hnot
  have hstep := hw.step_of_answer hverified
  obtain ⟨e, he, hkey⟩ := hw.key_of_knows hknows
  refine ⟨hverified, hstep.knows_verified (fun e' he' => ?_) (by simp [hsame, hkey]) ?_⟩
  · obtain rfl := Option.some.inj (he.symm.trans he')
    rw [hsame, hkey]
  · intro i hi hne
    rw [chain_other harr] at hi
    obtain rfl : i = o := by simpa [hne] using hi
    exact hidle

theorem survives_of_routeAndRule (h : Independent S jar) : Survives S jar := by
  rw [Survives, harr]
  rintro ⟨hkey, hsame, hidle, hfree⟩
  have hkeys : ∀ j, S.cookieKey j = S.cookieKey .first := by
    intro j
    cases j with
    | first => rfl
    | second => exact hsame.symm
  -- verify for the route, and then for the rule
  have hw₁ := (sound_initial S jar).step (o, attempt)
  obtain ⟨houter, hknows₁⟩ := attempt_outer harr (sound_initial S jar)
    (not_knows_of_empty (lookup_initial jar _)) (by rwa [hkeys]) (by
      intro e he
      rw [leading_initial] at he
      obtain ⟨e', he', rfl⟩ := Option.map_eq_some_iff.mp he
      rw [hkeys]
      exact hfree e' he')
  have hw₂ := hw₁.step (o.other, attempt)
  obtain ⟨hother, hknows₂⟩ := attempt_other harr hw₁ hknows₁
    ((hkeys o.other).trans (hkeys o).symm) hidle
  cases o with
  | first =>
    have hpassed := h [] (.first, attempt) [] (.second, attempt) [] attempt houter hother
    have hknows := (step_cases hw₂ .first attempt).passed_iff.mp hpassed .first
      (by simp [chain_outer harr])
    cases hw₂.eq_of_knows hknows hknows₂
  | second =>
    -- the route has lost the lead, so it can be verified for once more
    have hnot : ¬ (S.browsing.step (S.browsing.step (Setting.initial jar) (.second, attempt)).2
        (.first, attempt)).2.Knows .second := by
      intro hknows
      cases hw₂.eq_of_knows hknows hknows₂
    obtain ⟨e, he, hkey₂⟩ := hw₂.key_of_knows hknows₂
    have hw₃ := hw₂.step (.second, attempt)
    obtain ⟨hagain, hknows₃⟩ := attempt_outer harr hw₂ hnot (by rwa [hkeys]) (by
      intro e' he'
      obtain rfl := Option.some.inj (he.symm.trans he')
      rw [hkeys, ← hkeys (Which.other .second), hkey₂])
    have hpassed := h [(.second, attempt)] (.first, attempt) [] (.second, attempt) [] attempt
      hother hagain
    have hknows := (step_cases hw₃ .first attempt).passed_iff.mp hpassed .first
      (by simp [show S.arrangement.chain .first = _ from chain_other harr, Which.other])
    cases hw₃.eq_of_knows hknows hknows₃

/-- Whatever a browser has done before, the middleware of the rule does not let it pass. -/
theorem rule_never_passed (ops : List (Which × Request)) (r : Request) :
    (S.browsing.step (S.browsing.run (Setting.initial jar) ops) (o.other, r)).1 ≠ .passed := by
  intro hpassed
  have hw := sound_run S jar ops
  have hall := (step_cases hw o.other r).passed_iff.mp hpassed
  rw [chain_other harr] at hall
  have heq := hw.eq_of_knows (hall o (by simp)) (hall o.other (by simp))
  cases o <;> cases heq

end

/-- For every two middlewares, wherever they are, and every browser: after a verification for the
first scope and a later one for the second, a request for the first scope passes, exactly in
these settings. -/
theorem independent_iff (S : Setting M) (jar : CookieJar String) :
    Independent S jar ↔ Survives S jar := by
  cases harr : S.arrangement with
  | pathRules =>
    rw [Survives, harr]
    constructor
    · exact survives_of_pathRules harr
    · rintro ⟨hkey, hne, hfree⟩
      exact independent_of_pathRules harr hkey hne hfree
  | routeAndRule o =>
    exact ⟨survives_of_routeAndRule harr, independent_of_routeAndRule harr⟩

end

/-! ## Who passes -/

section

variable (S : Setting M) (jar : CookieJar String) (ops : List (Which × Request))

variable {S} in
theorem accepted_of_serve {r : Request} {token : Option Token} {chain : List Which} {s : Stores M}
    {j : Which} (h : (S.serve r token chain s).1 = .answered j .redirectAfterVerification) :
    r.isVerifyRequest = true ∧ r.limited j = false ∧ r.validCode j = true := by
  induction chain with
  | nil => cases h
  | cons k chain ih =>
    rw [Setting.serve] at h
    dsimp only at h
    split at h
    · exact ih h
    · obtain ⟨rfl, hanswer⟩ := Outcome.answered.inj h
      simp only [Setting.refuse, Setting.validateAndStartSession] at hanswer
      grind

/-- The token was issued by a verification at the middleware, with a code that was right. -/
def Accepted (j : Which) (t : Token) : Prop :=
  ∃ before request after, ops = before ++ request :: after ∧
    (S.browsing.step (S.browsing.run (Setting.initial jar) before) request).1 =
      .answered j .redirectAfterVerification ∧
    request.2.isVerifyRequest = true ∧ request.2.limited j = false ∧ request.2.validCode j = true ∧
    t = .issued (S.browsing.run (Setting.initial jar) before).stores.issued

theorem accepted_run {j : Which} {t : Token} {data : Option SessionData}
    (h : M.lookup ((S.browsing.run (Setting.initial jar) ops).stores.store j) t = some data) :
    Accepted S jar ops j t := by
  induction ops using List.reverseRecOn with
  | nil => simp at h
  | append_singleton ops request ih =>
    have hearlier : Accepted S jar ops j t → Accepted S jar (ops ++ [request]) j t := by
      rintro ⟨before, request', after, rfl, haccepted⟩
      exact ⟨before, request', after ++ [request], by simp, haccepted⟩
    rw [Machine.run_concat] at h
    generalize hanswer : (S.browsing.step (S.browsing.run (Setting.initial jar) ops) request).1 =
      outcome
    cases (sound_run S jar ops).step_of_answer hanswer with
    | quiet hsame => exact hearlier (ih ((hsame.lookup j t).symm.trans h))
    | verified hchain houter hj hgrown =>
      rw [hgrown.lookup] at h
      split at h
      · next hnew =>
        obtain ⟨rfl, rfl⟩ := hnew
        obtain ⟨hverify, hlimited, hcode⟩ := accepted_of_serve hanswer
        exact ⟨ops, request, [], rfl, hanswer, hverify, hlimited, hcode, rfl⟩
      · exact hearlier (ih h)

/-- A request only passes when every middleware on its way has issued the token that it carries,
for a right code in an earlier request that the limiter let through. -/
theorem passed_accepted (k : Which) (r : Request) (hpassed :
    (S.browsing.step (S.browsing.run (Setting.initial jar) ops) (k, r)).1 = .passed) :
    ∀ j ∈ S.arrangement.chain k, ∃ e, (S.browsing.run (Setting.initial jar) ops).leading = some e ∧
      Accepted S jar ops j e.2 := by
  intro j hj
  obtain ⟨t, data, ht, hdata⟩ := (step_cases (sound_run S jar ops) k r).passed_iff.mp hpassed j hj
  obtain ⟨e, he, rfl⟩ := Option.map_eq_some_iff.mp ht
  exact ⟨e, he, accepted_run S jar ops hdata⟩

end

def defaultSetting : Setting (mapManager SessionData) where
  lower := Char.toLower
  accepts cookie := if cookie.domain = "" then some "app.example" else none
  site
    | .first => ⟨"", "conn-port-443-host-app.example-path-/admin", defaultSession⟩
    | .second => ⟨"", "conn-port-443-host-app.example-path-/files", defaultSession⟩
  arrangement := .pathRules

theorem passed_accepted_attempt : ∃ e,
    (defaultSetting.browsing.run (Setting.initial []) [(.first, attempt)]).leading = some e ∧
      Accepted defaultSetting [] [(.first, attempt)] .first e.2 :=
  passed_accepted defaultSetting [] [(.first, attempt)] .first attempt (by decide +kernel) .first
    (by decide)

def nestedSetting : Setting (mapManager SessionData) :=
  { defaultSetting with arrangement := .routeAndRule .first }

theorem rule_never_passed_nested : (nestedSetting.browsing.step (nestedSetting.browsing.run
    (Setting.initial []) [(.first, attempt), (.second, attempt)]) (.second, attempt)).1 ≠ .passed :=
  rule_never_passed (o := .first) rfl [(.first, attempt), (.second, attempt)] attempt

/-- A browser verifies for one rule and then for the other one, and is challenged again at the
first. -/
theorem second_scope_ends_first :
    let w := defaultSetting.browsing.run (Setting.initial [])
      [(.first, attempt), (.second, attempt)]
    (defaultSetting.browsing.trace (Setting.initial [])
      [(.first, attempt), (.second, attempt)]).map Prod.snd =
        [.answered .first .redirectAfterVerification,
          .answered .second .redirectAfterVerification] ∧
      (defaultSetting.browsing.step w (.first, { attempt with method := "GET" })).1 =
        .answered .first .challenge := by
  decide +kernel

end Totp

end Torii.Middleware
