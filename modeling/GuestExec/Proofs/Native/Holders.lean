import GuestExec.Native.Patch

/-!
# Sites and their holders

The table of sites is a count of the breakpoints that are held: each address that
has some has one site, with as many holders as there are breakpoints. A site comes
with its first breakpoint and goes with its last one, and keeps what it remembers
in between.
-/

namespace GuestExec.Native

variable {t t' : SiteTable} {live live' : List Breakpoint} {b : Breakpoint} {host : HostAddr}
  {site : PatchedSite} {f : Nat → Nat}

/-- How many breakpoints are held at a host address. -/
def holdersAt (live : List Breakpoint) (host : HostAddr) : Nat := live.countP (·.host == host)

theorem holdersAt_concat (live : List Breakpoint) (b : Breakpoint) (host : HostAddr) :
    holdersAt (live ++ [b]) host = holdersAt live host + if b.host = host then 1 else 0 := by
  simp [holdersAt, List.countP_append, List.countP_singleton]

theorem holdersAt_erase (held : b ∈ live) (host : HostAddr) :
    holdersAt live host = holdersAt (live.erase b) host + if b.host = host then 1 else 0 := by
  rw [holdersAt, (List.perm_cons_erase held).countP_eq, List.countP_cons]
  simp [holdersAt]

theorem holdersAt_pos : 0 < holdersAt live host ↔ ∃ b ∈ live, b.host = host := by
  simp [holdersAt, List.countP_pos_iff]

namespace SiteTable

theorem contains_iff : t.contains host = true ↔ ∃ site ∈ t.sites, site.host = host := by
  simp [contains]

/-- The table counts the breakpoints that are held. -/
structure Counts (t : SiteTable) (live : List Breakpoint) : Prop where
  distinct : (t.sites.map (·.host)).Nodup
  bounded : t.sites.length ≤ capacity
  holders : ∀ site ∈ t.sites, site.holders = holdersAt live site.host
  positive : ∀ site ∈ t.sites, 0 < site.holders
  held : ∀ b ∈ live, ∃ site ∈ t.sites, site.host = b.host

theorem counts_empty : Counts {} [] :=
  ⟨List.nodup_nil, Nat.zero_le _, nofun, nofun, nofun⟩

/-- The sites of `t'` remember what those of `t` do. -/
def Remembers (t t' : SiteTable) : Prop :=
  ∀ site' ∈ t'.sites, ∃ site ∈ t.sites, site' = { site with holders := site'.holders }

/-- Other holders for the site at `host`. -/
def adjust (t : SiteTable) (host : HostAddr) (f : Nat → Nat) : SiteTable :=
  ⟨t.sites.map fun s => if s.host = host then { s with holders := f s.holders } else s⟩

theorem mem_adjust : site ∈ (t.adjust host f).sites ↔ ∃ s ∈ t.sites,
    (if s.host = host then { s with holders := f s.holders } else s) = site :=
  List.mem_map

theorem hosts_adjust (t : SiteTable) (host : HostAddr) (f : Nat → Nat) :
    (t.adjust host f).sites.map (·.host) = t.sites.map (·.host) := by
  rw [adjust, List.map_map]
  refine List.map_congr_left fun s _ => ?_
  simp only [Function.comp_apply]
  split <;> rfl

theorem remembers_adjust (t : SiteTable) (host : HostAddr) (f : Nat → Nat) :
    Remembers t (t.adjust host f) := by
  intro site' mem
  obtain ⟨s, old, rfl⟩ := mem_adjust.1 mem
  refine ⟨s, old, ?_⟩
  split <;> rfl

/-- A table whose holders were adjusted as the breakpoints were counts these. -/
theorem Counts.adjust (c : t.Counts live) (pos : 0 < holdersAt live' host)
    (here : holdersAt live' host = f (holdersAt live host))
    (elsewhere : ∀ other, other ≠ host → holdersAt live' other = holdersAt live other)
    (held : ∀ b ∈ live', ∃ site ∈ t.sites, site.host = b.host) :
    (t.adjust host f).Counts live' := by
  have counted : ∀ site ∈ (t.adjust host f).sites, site.holders = holdersAt live' site.host ∧
      0 < site.holders := by
    intro site mem
    obtain ⟨s, old, rfl⟩ := mem_adjust.1 mem
    have holders := c.holders s old
    split
    · rename_i at_host
      dsimp only
      rw [holders, at_host, ← here]
      exact ⟨rfl, pos⟩
    · rename_i other
      exact ⟨holders.trans (elsewhere s.host other).symm, c.positive s old⟩
  constructor
  · rw [hosts_adjust]
    exact c.distinct
  · rw [SiteTable.adjust, List.length_map]
    exact c.bounded
  · exact fun site mem => (counted site mem).1
  · exact fun site mem => (counted site mem).2
  · intro b mem
    obtain ⟨site, old, same⟩ := held b mem
    refine ⟨_, mem_adjust.2 ⟨site, old, rfl⟩, ?_⟩
    split <;> exact same

/-- One more breakpoint at a site that is there. -/
theorem Counts.share (c : t.Counts live) (there : t.contains b.host = true) :
    (t.share b.host).Counts (live ++ [b]) := by
  refine c.adjust (f := (· + 1)) ?_ ?_ (fun other ne => ?_) fun x mem => ?_
  · rw [holdersAt_concat, if_pos rfl]
    exact Nat.succ_pos _
  · rw [holdersAt_concat, if_pos rfl]
  · rw [holdersAt_concat, if_neg (Ne.symm ne), Nat.add_zero]
  · rcases List.mem_append.1 mem with old | new
    · exact c.held x old
    · rw [List.mem_singleton.1 new]
      exact contains_iff.1 there

/-- The first breakpoint at an address makes its site. -/
theorem Counts.add (c : t.Counts live) (free : t.contains b.host = false)
    (room : t.sites.length < capacity) (host : site.host = b.host) (one : site.holders = 1) :
    (⟨t.sites ++ [site]⟩ : SiteTable).Counts (live ++ [b]) := by
  have none : ∀ s ∈ t.sites, s.host ≠ b.host := fun s mem same => by
    rw [contains_iff.2 ⟨s, mem, same⟩] at free
    cases free
  have unheld : holdersAt live b.host = 0 := by
    refine Nat.eq_zero_of_not_pos fun pos => ?_
    obtain ⟨x, mem, same⟩ := holdersAt_pos.1 pos
    obtain ⟨s, old, there⟩ := c.held x mem
    exact none s old (there.trans same)
  have old : ∀ s ∈ t.sites, holdersAt (live ++ [b]) s.host = holdersAt live s.host :=
    fun s mem => by rw [holdersAt_concat, if_neg (Ne.symm (none s mem)), Nat.add_zero]
  constructor
  · rw [List.map_append, List.nodup_append]
    refine ⟨c.distinct, List.pairwise_singleton _ _, fun h mem h' new same => ?_⟩
    obtain ⟨s, there, rfl⟩ := List.mem_map.1 mem
    rw [List.map_singleton, List.mem_singleton, host] at new
    exact none s there (same.trans new)
  · rw [List.length_append, List.length_singleton]
    exact room
  · intro s mem
    rcases List.mem_append.1 mem with mem | new
    · rw [old s mem]
      exact c.holders s mem
    · rw [List.mem_singleton.1 new, host, one, holdersAt_concat, unheld, if_pos rfl]
  · intro s mem
    rcases List.mem_append.1 mem with mem | new
    · exact c.positive s mem
    · rw [List.mem_singleton.1 new, one]
      exact Nat.one_pos
  · intro x mem
    rcases List.mem_append.1 mem with mem | new
    · obtain ⟨s, there, same⟩ := c.held x mem
      exact ⟨s, List.mem_append_left _ there, same⟩
    · rw [List.mem_singleton.1 new]
      exact ⟨site, List.mem_append_right _ (List.mem_singleton_self _), host⟩

/-- The table without the site at `host`. -/
def without (t : SiteTable) (host : HostAddr) : SiteTable := ⟨t.sites.filter (·.host != host)⟩

theorem mem_without : site ∈ (t.without host).sites ↔ site ∈ t.sites ∧ site.host ≠ host := by
  simp [without]

theorem remembers_without (t : SiteTable) (host : HostAddr) : Remembers t (t.without host) :=
  fun site mem => ⟨site, (mem_without.1 mem).1, rfl⟩

/-- A site that nobody holds any longer may go. -/
theorem Counts.without (c : t.Counts live) (unheld : ∀ b ∈ live', b.host ≠ host)
    (elsewhere : ∀ other, other ≠ host → holdersAt live' other = holdersAt live other)
    (held : ∀ b ∈ live', ∃ site ∈ t.sites, site.host = b.host) :
    (t.without host).Counts live' := by
  constructor
  · exact c.distinct.sublist (List.filter_sublist.map _)
  · exact Nat.le_trans (List.length_filter_le _ _) c.bounded
  · intro s mem
    obtain ⟨old, ne⟩ := mem_without.1 mem
    rw [elsewhere s.host ne]
    exact c.holders s old
  · exact fun s mem => c.positive s (mem_without.1 mem).1
  · intro b mem
    obtain ⟨s, old, same⟩ := held b mem
    exact ⟨s, mem_without.2 ⟨old, same ▸ unheld b mem⟩, same⟩

/-! ## Letting go -/

/-- Taking a holder from a site that is there: it was the last one, or others are left. -/
theorem release_cases (there : t.contains host = true) :
    ∃ site ∈ t.sites, site.host = host ∧
      ((site.holders = 1 ∧ t.release host = (some site, t.without host)) ∨
        (site.holders ≠ 1 ∧ t.release host = (none, t.adjust host (· - 1)))) := by
  obtain ⟨s, member, same⟩ := contains_iff.1 there
  cases found : t.sites.find? (·.host == host) with
  | none => exact absurd (List.find?_eq_none.1 found s member) (by simp [same])
  | some site =>
    refine ⟨site, List.mem_of_find?_eq_some found, by simpa using List.find?_some found, ?_⟩
    rw [release, found]
    dsimp only
    split
    · rename_i last
      exact .inl ⟨last, rfl⟩
    · rename_i more
      exact .inr ⟨more, rfl⟩

/-- What letting the breakpoint `b` go comes to: others remain at its site, or the site goes. -/
inductive Released (t : SiteTable) (live : List Breakpoint) (b : Breakpoint) :
    Option PatchedSite × SiteTable → Prop where
  | kept {t' : SiteTable} : t'.Counts (live.erase b) → Remembers t t' →
    (∃ other ∈ live.erase b, other.host = b.host) → Released t live b (none, t')
  | gone {t' : SiteTable} {site : PatchedSite} : t'.Counts (live.erase b) → Remembers t t' →
    site ∈ t.sites → site.host = b.host → (∀ other ∈ live.erase b, other.host ≠ b.host) →
    Released t live b (some site, t')

theorem Counts.release (c : t.Counts live) (held : b ∈ live) :
    Released t live b (t.release b.host) := by
  obtain ⟨site, mem, host, result⟩ := release_cases (contains_iff.2 (c.held b held))
  have before := holdersAt_erase held b.host
  have elsewhere : ∀ other, other ≠ b.host →
      holdersAt (live.erase b) other = holdersAt live other := fun other ne => by
    rw [holdersAt_erase held other, if_neg (Ne.symm ne), Nat.add_zero]
  have sited : ∀ x ∈ live.erase b, ∃ s ∈ t.sites, s.host = x.host :=
    fun x there => c.held x (List.mem_of_mem_erase there)
  have holders := c.holders site mem
  rw [if_pos rfl] at before
  rw [host, before] at holders
  rcases result with ⟨last, eq⟩ | ⟨more, eq⟩
  · have unheld : ∀ other ∈ live.erase b, other.host ≠ b.host := fun other there same => by
      have := holdersAt_pos.2 ⟨other, there, same⟩
      omega
    rw [eq]
    exact .gone (c.without unheld elsewhere sited) (remembers_without t b.host) mem host unheld
  · have pos := c.positive site mem
    have left : 0 < holdersAt (live.erase b) b.host := by omega
    rw [eq]
    exact .kept (c.adjust (f := (· - 1)) left (by omega) elsewhere sited)
      (remembers_adjust t b.host (· - 1)) (holdersAt_pos.1 left)

end SiteTable

end GuestExec.Native
