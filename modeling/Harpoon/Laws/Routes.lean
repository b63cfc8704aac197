import Harpoon.Desktop.Router

/-!
# Where a hostname leads

A hostname leads to an application only when that application alone derives it, and is a conflict when several do. The
order of the input decides which of an application's entries counts, and how a conflict names its applications; nothing
else of it shows.
-/

namespace Harpoon.Deploy

open Keyed (Table Unique)

variable {apps apps' : List (ApplicationId × Option UInt16)} {host : String} {a b : ApplicationId}
  {c : ApplicationId × Option UInt16}

/-! ## The map and the list -/

/-- One more claim, unless its application has one. -/
def RouteTable.claim (claims : List (ApplicationId × Option UInt16)) (c : ApplicationId × Option UInt16) :
    List (ApplicationId × Option UInt16) :=
  if claims.any (·.1 = c.1) then claims else claims ++ [c]

/-- The map holds under each hostname the claims that derive it. -/
def ByHost.Holds (t : ByHost) (claims : List (ApplicationId × Option UInt16)) : Prop :=
  ∀ host, (t.find host).elim [] Claims.all = claims.filter fun c => hostname c.1 = host

theorem ByHost.find_claim (t : ByHost) (c : ApplicationId × Option UInt16) (host : String) :
    (t.claim c).find host =
      if hostname c.1 = host then some ((t.find host).elim ⟨host, c, []⟩ (Claims.add c)) else t.find host := by
  unfold ByHost.claim
  split
  next cs found =>
    rw [Table.find_change]
    by_cases same : host = hostname c.1
    · rw [if_pos same, if_pos same.symm, same, found]
      rfl
    · rw [if_neg same, if_neg fun eq => same eq.symm]
  next fresh =>
    rw [Table.find_push]
    by_cases same : hostname c.1 = host
    · rw [if_pos same, if_pos same, ← same, fresh]
      rfl
    · rw [if_neg same, if_neg same]

theorem Claims.all_add (c : ApplicationId × Option UInt16) (cs : Claims) : (cs.add c).all = RouteTable.claim cs.all c := by
  unfold Claims.add RouteTable.claim
  split <;> rfl

/-- An application claims one hostname only, so its other entries are under it. -/
theorem claim_filter (claims : List (ApplicationId × Option UInt16)) (c : ApplicationId × Option UInt16) (host : String) :
    (RouteTable.claim claims c).filter (fun c => hostname c.1 = host) =
      if hostname c.1 = host then RouteTable.claim (claims.filter fun c => hostname c.1 = host) c
      else claims.filter fun c => hostname c.1 = host := by
  unfold RouteTable.claim
  by_cases same : hostname c.1 = host
  · have anys : (claims.filter fun c => hostname c.1 = host).any (·.1 = c.1) = claims.any (·.1 = c.1) := by
      rw [List.any_filter]
      refine congrArg (List.any claims) (funext fun x => ?_)
      by_cases eq : x.1 = c.1
      · simp [eq, same]
      · simp [eq]
    rw [if_pos same, anys]
    split
    · rfl
    · rw [List.filter_append, List.filter_cons_of_pos (by simpa using same), List.filter_nil]
  · rw [if_neg same]
    split
    · rfl
    · rw [List.filter_append, List.filter_cons_of_neg (by simpa using same), List.filter_nil, List.append_nil]

theorem ByHost.Holds.claim {t : ByHost} {claims : List (ApplicationId × Option UInt16)} (h : t.Holds claims)
    (c : ApplicationId × Option UInt16) : (t.claim c).Holds (RouteTable.claim claims c) := by
  intro host
  have old := h host
  rw [ByHost.find_claim, claim_filter]
  by_cases same : hostname c.1 = host
  · rw [if_pos same, if_pos same, ← old, Option.elim_some]
    cases t.find host with
    | none => rfl
    | some cs => exact cs.all_add c
  · rw [if_neg same, if_neg same, old]

theorem ByHost.Holds.foldl : ∀ (apps : List (ApplicationId × Option UInt16)) {t : ByHost}
    {claims : List (ApplicationId × Option UInt16)}, t.Holds claims →
    (apps.foldl ByHost.claim t).Holds (apps.foldl RouteTable.claim claims)
  | [], _, _, h => h
  | c :: apps, _, _, h => ByHost.Holds.foldl apps (h.claim c)

/-- The map answers what the list of claims answers. -/
theorem Routes.get_build (apps : List (ApplicationId × Option UInt16)) (host : String) :
    (Routes.build apps).get host = (RouteTable.build apps).get host := by
  have holds : (apps.foldl ByHost.claim Table.empty).Holds (RouteTable.build apps).claims :=
    ByHost.Holds.foldl apps fun _ => rfl
  have same := holds host
  unfold Routes.get Routes.build RouteTable.get
  rw [Table.find_map, ← same]
  cases (apps.foldl ByHost.claim Table.empty).find host with
  | none => rfl
  | some cs =>
    obtain ⟨name, first, others⟩ := cs
    cases others <;> rfl

/-! ## What the list keeps -/

/-- Every application of the input has one claim, which is an entry of the input. -/
structure OneEach (apps claims : List (ApplicationId × Option UInt16)) : Prop where
  sub : ∀ c ∈ claims, c ∈ apps
  all : ∀ c ∈ apps, ∃ port, (c.1, port) ∈ claims
  unique : Unique Prod.fst claims

theorem OneEach.claim {claims : List (ApplicationId × Option UInt16)} (h : OneEach apps claims)
    (c : ApplicationId × Option UInt16) : OneEach (apps ++ [c]) (RouteTable.claim claims c) := by
  unfold RouteTable.claim
  split
  next known =>
    obtain ⟨x, mem, same⟩ := List.any_eq_true.mp known
    refine ⟨fun c mem => List.mem_append_left _ (h.sub c mem), fun d mem' => ?_, h.unique⟩
    rcases List.mem_append.mp mem' with old | new
    · exact h.all d old
    · rw [List.mem_singleton.mp new, ← of_decide_eq_true same]
      exact ⟨x.2, mem⟩
  next new =>
    have fresh : Keyed.lookup Prod.fst c.1 claims = none := by
      refine Keyed.lookup_none_iff.mpr fun x mem same => new ?_
      exact List.any_eq_true.mpr ⟨x, mem, decide_eq_true same⟩
    refine ⟨fun d mem => ?_, fun d mem => ?_, h.unique.concat fresh⟩
    · rcases List.mem_append.mp mem with old | new
      · exact List.mem_append_left _ (h.sub d old)
      · exact List.mem_append_right _ new
    · rcases List.mem_append.mp mem with old | new
      · exact (h.all d old).imp fun _ mem => List.mem_append_left _ mem
      · rw [List.mem_singleton.mp new]
        exact ⟨c.2, List.mem_append_right _ (List.mem_singleton_self c)⟩

theorem OneEach.foldl : ∀ (more : List (ApplicationId × Option UInt16))
    {apps claims : List (ApplicationId × Option UInt16)},
    OneEach apps claims → OneEach (apps ++ more) (more.foldl RouteTable.claim claims)
  | [], apps, claims, h => (List.append_nil apps).symm ▸ h
  | c :: more, apps, claims, h => by
    have next := OneEach.foldl more (h.claim c)
    rwa [List.append_assoc] at next

theorem oneEach_build (apps : List (ApplicationId × Option UInt16)) : OneEach apps (RouteTable.build apps).claims :=
  OneEach.foldl apps ⟨fun _ mem => absurd mem List.not_mem_nil, fun _ mem => absurd mem List.not_mem_nil, List.nodup_nil⟩

theorem mem_claims_of_host {claims : List (ApplicationId × Option UInt16)} :
    c ∈ claims.filter (fun c => hostname c.1 = host) ↔ c ∈ claims ∧ hostname c.1 = host := by
  rw [List.mem_filter, decide_eq_true_eq]

/-- What is served alone claims its hostname. -/
theorem get_serving {port : UInt16} (found : (RouteTable.build apps).get host = some (.serving a port)) :
    host = hostname a ∧ (a, some port) ∈ apps ∧ ∀ b q, (b, q) ∈ apps → hostname b = hostname a → b = a := by
  have kept := oneEach_build apps
  unfold RouteTable.get at found
  split at found
  · cases found
  next app recorded only =>
    have served : app = a ∧ recorded = some port := by
      cases recorded with
      | none => cases found
      | some p =>
        have found := Option.some.inj found
        rw [Route.of] at found
        split at found
        · cases found
          exact ⟨rfl, rfl⟩
        · cases found
    obtain ⟨rfl, rfl⟩ := served
    have inside := mem_claims_of_host.mp (only ▸ List.mem_singleton_self _)
    refine ⟨inside.2.symm, kept.sub _ inside.1, fun b q mem same => ?_⟩
    obtain ⟨r, claimed⟩ := kept.all _ mem
    have here := mem_claims_of_host.mpr ⟨claimed, same.trans inside.2⟩
    rw [only] at here
    exact congrArg Prod.fst (List.mem_singleton.mp here)
  · cases found

/-- A hostname with two applications is a conflict of all that claim it. -/
theorem get_conflict {p q : Option UInt16} (ha : (a, p) ∈ apps) (hb : (b, q) ∈ apps) (other : a ≠ b)
    (claimsA : hostname a = host) (claimsB : hostname b = host) :
    ∃ cs, (RouteTable.build apps).get host = some (.conflict cs) ∧
      ∀ x, x ∈ cs ↔ ∃ r, (x, r) ∈ apps ∧ hostname x = host := by
  have kept := oneEach_build apps
  obtain ⟨p', keptA⟩ := kept.all _ ha
  obtain ⟨q', keptB⟩ := kept.all _ hb
  have hereA := mem_claims_of_host.mpr ⟨keptA, claimsA⟩
  have hereB := mem_claims_of_host.mpr ⟨keptB, claimsB⟩
  unfold RouteTable.get
  split
  next none =>
    rw [none] at hereA
    cases hereA
  next app recorded only =>
    rw [only] at hereA hereB
    have same := (List.mem_singleton.mp hereA).trans (List.mem_singleton.mp hereB).symm
    exact absurd (congrArg Prod.fst same) other
  next claims _ _ =>
    refine ⟨_, rfl, fun x => ?_⟩
    rw [List.mem_map]
    constructor
    · rintro ⟨c, mem, rfl⟩
      have ⟨claimed, named⟩ := mem_claims_of_host.mp mem
      exact ⟨c.2, kept.sub c claimed, named⟩
    · rintro ⟨r, mem, named⟩
      obtain ⟨r', claimed⟩ := kept.all _ mem
      exact ⟨(x, r'), mem_claims_of_host.mpr ⟨claimed, named⟩, rfl⟩

/-! ## The order of the input -/

/-- One route, and a conflict of the same applications in any order. -/
def Route.Same : Route → Route → Prop
  | .conflict as, .conflict bs => as.Perm bs
  | r, s => r = s

/-- Each application is listed with one port. -/
def OnePort (apps : List (ApplicationId × Option UInt16)) : Prop := ∀ a p q, (a, p) ∈ apps → (a, q) ∈ apps → p = q

theorem OneEach.mem_iff {claims : List (ApplicationId × Option UInt16)} (h : OneEach apps claims) (one : OnePort apps) :
    c ∈ claims ↔ c ∈ apps := by
  refine ⟨h.sub c, fun mem => ?_⟩
  obtain ⟨port, claimed⟩ := h.all c mem
  have same : port = c.2 := one c.1 _ _ (h.sub _ claimed) mem
  rwa [same] at claimed

/-- With one port for each application the claims are those of the input, in its order. -/
theorem OneEach.perm {claims claims' : List (ApplicationId × Option UInt16)}
    (h : OneEach apps claims) (h' : OneEach apps' claims')
    (one : OnePort apps) (perm : apps'.Perm apps) : claims'.Perm claims := by
  have one' : OnePort apps' := fun a p q hp hq => one a p q (perm.mem_iff.mp hp) (perm.mem_iff.mp hq)
  refine (List.perm_ext_iff_of_nodup h'.unique.nodup h.unique.nodup).mpr fun c => ?_
  rw [h'.mem_iff one', h.mem_iff one, perm.mem_iff]

theorem Route.Same.refl (r : Route) : r.Same r := by
  cases r with
  | serving => rfl
  | idle => rfl
  | conflict => exact List.Perm.refl _

theorem get_perm (one : OnePort apps) (perm : apps'.Perm apps) (host : String) :
    Option.Rel Route.Same ((RouteTable.build apps').get host) ((RouteTable.build apps).get host) := by
  have claims := (oneEach_build apps).perm (oneEach_build apps') one perm
  have found := claims.filter fun c => hostname c.1 = host
  unfold RouteTable.get
  split
  next none =>
    rw [none] at found
    rw [List.nil_perm.mp found]
    exact .none
  next app recorded only =>
    rw [only] at found
    rw [← List.singleton_perm.mp found]
    exact .some (Route.Same.refl _)
  next claims' some several =>
    split
    next none =>
      rw [none] at found
      exact absurd (List.perm_nil.mp found) some
    next app recorded only =>
      rw [only] at found
      exact absurd (List.perm_singleton.mp found) (several app recorded)
    next => exact .some (found.map Prod.fst)

/-- What a hostname leads to, for every input and every `Host` field. -/
theorem routes_resolve (apps : List (ApplicationId × Option UInt16)) (hostHeader : String) :
    (∀ a port, (Routes.build apps).resolve hostHeader = some (.serving a port) →
      hostOf hostHeader = hostname a ∧ (a, some port) ∈ apps ∧ ∀ b q, (b, q) ∈ apps → hostname b = hostname a → b = a) ∧
    (∀ a b p q, (a, p) ∈ apps → (b, q) ∈ apps → a ≠ b → hostname a = hostOf hostHeader → hostname b = hostOf hostHeader →
      ∃ cs, (Routes.build apps).resolve hostHeader = some (.conflict cs) ∧
        ∀ x, x ∈ cs ↔ ∃ r, (x, r) ∈ apps ∧ hostname x = hostOf hostHeader) ∧
    (∀ apps', apps'.Perm apps → OnePort apps →
      Option.Rel Route.Same ((Routes.build apps').resolve hostHeader) ((Routes.build apps).resolve hostHeader)) := by
  unfold Routes.resolve
  rw [Routes.get_build]
  refine ⟨fun a port found => get_serving found, fun a b p q ha hb other claimsA claimsB =>
    get_conflict ha hb other claimsA claimsB, fun apps' perm one => ?_⟩
  rw [Routes.get_build]
  exact get_perm one perm _

section

def firstApp : ApplicationId := ⟨0⟩

/-- It ends as `firstApp` does. -/
def secondApp : ApplicationId := ⟨0x10000000000000⟩

theorem swapped_same :
    Option.Rel Route.Same
      ((Routes.build [(secondApp, none), (firstApp, some 38001)]).resolve "0000000000.Harpoon.localhost.:7480")
      ((Routes.build [(firstApp, some 38001), (secondApp, none)]).resolve "0000000000.Harpoon.localhost.:7480") :=
  (routes_resolve [(firstApp, some 38001), (secondApp, none)] "0000000000.Harpoon.localhost.:7480").2.2 _
    (List.Perm.swap ..) fun a p q hp hq => by
      simp only [List.mem_cons, List.not_mem_nil, or_false, Prod.mk.injEq] at hp hq
      have apart : firstApp ≠ secondApp := by decide
      obtain ⟨rfl, rfl⟩ | ⟨rfl, rfl⟩ := hp
      · exact hq.elim (fun h => h.2.symm) fun h => absurd h.1 apart
      · exact hq.elim (fun h => absurd h.1.symm apart) fun h => h.2.symm

/-- An application listed with two ports is served on the first, and a conflict lists its applications in their order. -/
theorem order_shows :
    (Routes.build [(firstApp, some 38001), (firstApp, some 38002)]).resolve "0000000000.harpoon.localhost" ≠
      (Routes.build [(firstApp, some 38002), (firstApp, some 38001)]).resolve "0000000000.harpoon.localhost" ∧
    (Routes.build [(firstApp, some 38001), (secondApp, some 38002)]).resolve "0000000000.harpoon.localhost" ≠
      (Routes.build [(secondApp, some 38002), (firstApp, some 38001)]).resolve "0000000000.harpoon.localhost" := by
  decide

end

end Harpoon.Deploy
