import GuestExec.Proofs.Native.Holders

/-!
# A table and what was added to it

A run finds a table in which other runs hold sites. What it adds is told apart from
what was there: `Atop` says that a table is an older one with some sites added and
with some more breakpoints held. When the last of these is let go the table is the
older one again, whatever happened in which order.
-/

namespace GuestExec.Native

variable {t t₀ t' : SiteTable} {live live' : List Breakpoint} {b : Breakpoint} {host : HostAddr}
  {l new : List PatchedSite} {f : Nat → Nat}

/-- The site with the breakpoints `live` held besides. -/
def PatchedSite.raise (live : List Breakpoint) (s : PatchedSite) : PatchedSite :=
  { s with holders := s.holders + holdersAt live s.host }

theorem holdersAt_cons (b : Breakpoint) (live : List Breakpoint) (host : HostAddr) :
    holdersAt (b :: live) host = holdersAt live host + if b.host = host then 1 else 0 := by
  simp [holdersAt, List.countP_cons]

theorem holdersAt_cons_of_ne (other : host ≠ b.host) :
    holdersAt (b :: live) host = holdersAt live host := by
  rw [holdersAt_cons, if_neg (Ne.symm other), Nat.add_zero]

theorem PatchedSite.raise_cons_of_ne {s : PatchedSite} (other : s.host ≠ b.host) :
    s.raise (b :: live) = s.raise live := by
  rw [raise, raise, holdersAt_cons_of_ne other]

namespace SiteTable

/-! ## Raised sites -/

theorem contains_iff_of_raised (sites : t.sites = l.map (PatchedSite.raise live)) :
    t.contains host = true ↔ ∃ s ∈ l, s.host = host := by
  rw [contains_iff, sites]
  constructor
  · rintro ⟨_, member, same⟩
    obtain ⟨s, mem, rfl⟩ := List.mem_map.1 member
    exact ⟨s, mem, same⟩
  · rintro ⟨s, mem, same⟩
    exact ⟨s.raise live, List.mem_map_of_mem mem, same⟩

/-- Holders adjusted as the breakpoints were. -/
theorem sites_adjust (sites : t.sites = l.map (PatchedSite.raise live))
    (here : ∀ s ∈ l, f (s.holders + holdersAt live host) = s.holders + holdersAt live' host)
    (elsewhere : ∀ other, other ≠ host → holdersAt live' other = holdersAt live other) :
    (t.adjust host f).sites = l.map (PatchedSite.raise live') := by
  rw [adjust, sites, List.map_map]
  refine List.map_congr_left fun s mem => ?_
  rw [Function.comp_apply]
  split
  · rename_i at_host
    have at_host : s.host = host := at_host
    rw [PatchedSite.raise, PatchedSite.raise, at_host, here s mem]
  · rename_i other
    rw [PatchedSite.raise, PatchedSite.raise, elsewhere s.host other]

/-! ## Added sites -/

/-- The table `t` is `t₀` with the sites `new` and with the breakpoints `live` held, of which the
new sites have all their holders. -/
structure Atop (t₀ : SiteTable) (new : List PatchedSite) (live : List Breakpoint)
    (t : SiteTable) : Prop where
  sites : t.sites = (t₀.sites ++ new).map (PatchedSite.raise live)
  fresh : ∀ s ∈ new, s.holders = 0 ∧ t₀.contains s.host = false
  needed : ∀ s ∈ new, ∃ b ∈ live, b.host = s.host
  sited : ∀ b ∈ live, t.contains b.host = true

namespace Atop

theorem refl (t : SiteTable) : Atop t [] [] t := by
  refine ⟨?_, List.forall_mem_nil _, List.forall_mem_nil _, List.forall_mem_nil _⟩
  rw [List.append_nil]
  exact (List.map_id' t.sites).symm

/-- With nothing held the table is as it was. -/
theorem eq_of_nil (h : Atop t₀ new [] t) : t = t₀ ∧ new = [] := by
  have none : new = [] := List.eq_nil_iff_forall_not_mem.2 fun s mem => by
    obtain ⟨b, held, -⟩ := h.needed s mem
    cases held
  have sites := h.sites
  rw [none, List.append_nil] at sites
  exact ⟨congrArg SiteTable.mk (sites.trans (List.map_id' t₀.sites)), none⟩

theorem perm (h : Atop t₀ new live t) (same : live.Perm live') : Atop t₀ new live' t where
  sites := by
    have raise : PatchedSite.raise live' = PatchedSite.raise live := by
      funext s
      rw [PatchedSite.raise, PatchedSite.raise, holdersAt, holdersAt, same.countP_eq]
    rw [raise]
    exact h.sites
  fresh := h.fresh
  needed s mem := by
    obtain ⟨b, held, host⟩ := h.needed s mem
    exact ⟨b, same.mem_iff.1 held, host⟩
  sited b held := h.sited b (same.mem_iff.2 held)

/-- New sites are held by the breakpoints that need them. -/
theorem held (h : Atop t₀ new live t) (held : ∀ s ∈ t₀.sites, s.holders ≠ 0) :
    ∀ s ∈ t.sites, s.holders ≠ 0 := by
  intro s mem
  rw [h.sites] at mem
  obtain ⟨s, member, rfl⟩ := List.mem_map.1 mem
  refine Nat.ne_of_gt ?_
  rcases List.mem_append.1 member with old | added
  · exact Nat.add_pos_left (Nat.pos_of_ne_zero (held s old)) _
  · obtain ⟨b, inside, same⟩ := h.needed s added
    exact Nat.add_pos_right _ (List.countP_pos_iff.2 ⟨b, inside, beq_iff_eq.2 same⟩)

theorem contains_iff (h : Atop t₀ new live t) :
    t.contains host = true ↔ t₀.contains host = true ∨ ∃ s ∈ new, s.host = host := by
  rw [contains_iff_of_raised h.sites, SiteTable.contains_iff]
  simp only [List.mem_append, or_and_right, exists_or]

/-- A site is there for a breakpoint that joins it. -/
theorem share (h : Atop t₀ new live t) (there : t.contains b.host = true) :
    Atop t₀ new (b :: live) (t.share b.host) := by
  have sites : (t.share b.host).sites = (t₀.sites ++ new).map (PatchedSite.raise (b :: live)) :=
    sites_adjust (f := (· + 1)) h.sites
      (fun s _ => by rw [holdersAt_cons, if_pos rfl, Nat.add_assoc])
      fun other ne => holdersAt_cons_of_ne ne
  refine ⟨sites, h.fresh, fun s mem => ?_, fun c held => ?_⟩
  · obtain ⟨c, held, host⟩ := h.needed s mem
    exact ⟨c, List.mem_cons_of_mem b held, host⟩
  · rw [contains_iff_of_raised sites, ← contains_iff_of_raised h.sites]
    rcases List.mem_cons.1 held with rfl | held
    · exact there
    · exact h.sited c held

/-- The first breakpoint at an address brings a new site. -/
theorem add (h : Atop t₀ new live t) (site : PatchedSite) (free : t.contains b.host = false)
    (host : site.host = b.host) (one : site.holders = 1) :
    Atop t₀ (new ++ [{ site with holders := 0 }]) (b :: live) ⟨t.sites ++ [site]⟩ := by
  have none : ∀ s ∈ t₀.sites ++ new, s.host ≠ b.host := fun s mem same => by
    rw [(contains_iff_of_raised h.sites).2 ⟨s, mem, same⟩] at free
    cases free
  have unheld : holdersAt live b.host = 0 := by
    refine Nat.eq_zero_of_not_pos fun pos => ?_
    obtain ⟨c, held, same⟩ := holdersAt_pos.1 pos
    rw [← same, h.sited c held] at free
    cases free
  have old : t.sites = (t₀.sites ++ new).map (PatchedSite.raise (b :: live)) := by
    rw [h.sites]
    exact List.map_congr_left fun s mem => (PatchedSite.raise_cons_of_ne (none s mem)).symm
  have added : ({ site with holders := 0 } : PatchedSite).raise (b :: live) = site := by
    have count : holdersAt (b :: live) site.host = site.holders := by
      rw [host, holdersAt_cons, unheld, if_pos rfl, one]
    rw [PatchedSite.raise]
    dsimp only
    rw [count, Nat.zero_add]
  have sites : t.sites ++ [site] =
      (t₀.sites ++ (new ++ [{ site with holders := 0 }])).map (PatchedSite.raise (b :: live)) := by
    rw [← List.append_assoc, List.map_append, ← old, List.map_singleton, added]
  refine ⟨sites, fun s mem => ?_, fun s mem => ?_, fun c held => ?_⟩
  · rcases List.mem_append.1 mem with mem | mem
    · exact h.fresh s mem
    · rw [List.mem_singleton.1 mem]
      refine ⟨rfl, (Bool.not_eq_true _).mp fun there => ?_⟩
      rw [h.contains_iff.2 (.inl (host ▸ there))] at free
      cases free
  · rcases List.mem_append.1 mem with mem | mem
    · obtain ⟨c, held, same⟩ := h.needed s mem
      exact ⟨c, List.mem_cons_of_mem b held, same⟩
    · rw [List.mem_singleton.1 mem]
      exact ⟨b, List.mem_cons_self, host.symm⟩
  · rw [SiteTable.contains_iff]
    rcases List.mem_cons.1 held with rfl | held
    · exact ⟨site, List.mem_append_right _ (List.mem_singleton_self _), host⟩
    · obtain ⟨s, mem, same⟩ := SiteTable.contains_iff.1 (h.sited c held)
      exact ⟨s, List.mem_append_left _ mem, same⟩

/-- One of the breakpoints goes; new sites that lose it have others. -/
theorem lower (h : Atop t₀ new (b :: live) t)
    (left : (∃ s ∈ new, s.host = b.host) → ∃ c ∈ live, c.host = b.host) :
    Atop t₀ new live (t.adjust b.host (· - 1)) := by
  have sites : (t.adjust b.host (· - 1)).sites =
      (t₀.sites ++ new).map (PatchedSite.raise live) :=
    sites_adjust h.sites
      (fun s _ => by rw [holdersAt_cons, if_pos rfl, ← Nat.add_assoc, Nat.add_sub_cancel])
      fun other ne => (holdersAt_cons_of_ne ne).symm
  refine ⟨sites, h.fresh, fun s mem => ?_, fun c there => ?_⟩
  · obtain ⟨c, there, same⟩ := h.needed s mem
    rcases List.mem_cons.1 there with rfl | there
    · obtain ⟨c', there', same'⟩ := left ⟨s, mem, same.symm⟩
      exact ⟨c', there', same'.trans same⟩
    · exact ⟨c, there, same⟩
  · rw [contains_iff_of_raised sites, ← contains_iff_of_raised h.sites]
    exact h.sited c (List.mem_cons_of_mem b there)

/-- The last breakpoint at an address goes, and the new site with it. -/
theorem without (h : Atop t₀ new (b :: live) t) (apart : t₀.contains b.host = false)
    (unheld : ∀ c ∈ live, c.host ≠ b.host) :
    Atop t₀ (new.filter (·.host != b.host)) live (t.without b.host) := by
  have kept : t₀.sites.filter (·.host != b.host) = t₀.sites := by
    refine List.filter_eq_self.2 fun s mem => bne_iff_ne.2 fun same => ?_
    rw [SiteTable.contains_iff.2 ⟨s, mem, same⟩] at apart
    cases apart
  have filtered : (t₀.sites ++ new).filter (·.host != b.host) =
      t₀.sites ++ new.filter (·.host != b.host) := by
    rw [List.filter_append, kept]
  have sites : (t.without b.host).sites =
      (t₀.sites ++ new.filter (·.host != b.host)).map (PatchedSite.raise live) := by
    rw [SiteTable.without, h.sites, List.filter_map, ← filtered]
    exact List.map_congr_left fun s mem =>
      PatchedSite.raise_cons_of_ne (bne_iff_ne.1 (List.mem_filter.1 mem).2)
  refine ⟨sites, fun s mem => h.fresh s (List.mem_filter.1 mem).1, fun s mem => ?_,
    fun c there => ?_⟩
  · obtain ⟨isNew, other⟩ := List.mem_filter.1 mem
    obtain ⟨c, there, same⟩ := h.needed s isNew
    rcases List.mem_cons.1 there with rfl | there
    · exact absurd same.symm (bne_iff_ne.1 other)
    · exact ⟨c, there, same⟩
  · obtain ⟨s, mem, same⟩ := SiteTable.contains_iff.1 (h.sited c (List.mem_cons_of_mem b there))
    exact SiteTable.contains_iff.2
      ⟨s, mem_without.2 ⟨mem, fun here => unheld c there (same.symm.trans here)⟩, same⟩

/-- What letting a breakpoint go comes to: others remain at its site, or the site was new and goes
with it. -/
inductive Released (t₀ : SiteTable) (new : List PatchedSite) (live : List Breakpoint)
    (b : Breakpoint) : Option PatchedSite × SiteTable → Prop where
  | kept {t' : SiteTable} : Atop t₀ new live t' → Released t₀ new live b (none, t')
  | gone {t' : SiteTable} {s : PatchedSite} : s ∈ new → s.host = b.host →
    Atop t₀ (new.filter (·.host != b.host)) live t' →
    Released t₀ new live b (some (s.raise (b :: live)), t')

/-- Sites that were in the table before have holders of their own, so they stay. -/
theorem release (h : Atop t₀ new (b :: live) t) (held : ∀ s ∈ t₀.sites, s.holders ≠ 0) :
    Released t₀ new live b (t.release b.host) := by
  obtain ⟨_, member, host, result⟩ := release_cases (h.sited b List.mem_cons_self)
  rw [h.sites] at member
  obtain ⟨s, mem, rfl⟩ := List.mem_map.1 member
  have host : s.host = b.host := host
  have count : (s.raise (b :: live)).holders = s.holders + (holdersAt live b.host + 1) := by
    rw [PatchedSite.raise, host, holdersAt_cons, if_pos rfl]
  rcases result with ⟨last, eq⟩ | ⟨more, eq⟩
  · -- The breakpoint is the only holder, so the site is not one of the older table.
    have isNew : s ∈ new := by
      refine (List.mem_append.1 mem).resolve_left fun old => held s old ?_
      omega
    have unheld : ∀ c ∈ live, c.host ≠ b.host := fun c there same => by
      have := holdersAt_pos.2 ⟨c, there, same⟩
      omega
    rw [eq]
    exact .gone isNew host (h.without (host ▸ (h.fresh s isNew).2) unheld)
  · rw [eq]
    refine .kept (h.lower fun ⟨s', isNew, same⟩ => holdersAt_pos.1 ?_)
    -- All new sites at the address count the same holders.
    have zero : s.holders = 0 := by
      rcases List.mem_append.1 mem with old | isNew'
      · have fresh := (h.fresh s' isNew).2
        rw [same, SiteTable.contains_iff.2 ⟨s, old, host⟩] at fresh
        cases fresh
      · exact (h.fresh s isNew').1
    omega

end Atop

end SiteTable

end GuestExec.Native
