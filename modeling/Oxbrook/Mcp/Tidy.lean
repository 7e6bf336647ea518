import Oxbrook.Mcp.Hands

/-!
# Every step leaves things in somebody's hands

`Tidy` puts the four groups of facts together, and `Tidy.step` goes through the operations of the registry and of the
requests, one by one.
-/

namespace Oxbrook

open StepMachine

variable {ι υ : Type} [DecidableEq ι] [DecidableEq υ] {idle limit : ℕ}

namespace RegistryState

structure Tidy (s : RegistryState ι υ) : Prop where
  listed : s.Listed
  shut : s.Shut
  feeds : s.FeedsHeld
  channels : s.ChannelsHeld

omit [DecidableEq ι] in
lemma tidy_new : (new : RegistryState ι υ).Tidy where
  listed := ⟨nofun, nofun, nofun⟩
  shut := ⟨fun _ => trivial, nofun⟩
  feeds := ⟨nofun, nofun, nofun, nofun, nofun⟩
  channels := ⟨nofun, nofun, nofun⟩

/-- The same is open, and in the same registry. -/
structure SameHoldings (s s' : RegistryState ι υ) : Prop where
  live : s'.live = s.live
  made : s'.made = s.made
  channel : s'.channel = s.channel
  feeds : s'.feeds = s.feeds
  subs : s'.subs = s.subs
  closed : s'.closed = s.closed
  pumps : s'.pumps = s.pumps
  channels : s'.channels = s.channels
  ended : s'.ended = s.ended
  attached : s'.attached = s.attached

namespace Tidy

variable {s s' : RegistryState ι υ} {i : ι} {pc : RequestPc υ}

/-- A request that has nothing in hand goes on, and nothing is opened or closed. -/
lemma keep (h : s.Tidy) (hops : s'.ops = Function.update s.ops i pc) (same : s.SameHoldings s')
    (hold : (s.ops i).HoldsNothing) (hnew : pc.HoldsNothing) (hsessions : ∀ x ∈ pc.sessions, x < s.made)
    (hreached : ∀ x c, pc.OnChannel x c → x ∈ s.live → s.channel x = some c)
    (hjudged : ∀ x, pc.Judged x → x ∈ s.live → ¬ s.Streaming x) : s'.Tidy where
  listed := by
    refine h.listed.move hops same.made.ge (fun x hx => .inl (same.live ▸ hx)) hsessions ?_
    rw [hnew.closings]
    nofun
  shut := by
    refine h.shut.keep h.listed hops same.made same.live (fun x _ => nothingAdded_of_eq same.channel same.feeds x) ?_ ?_
    · exact staged_of_closings_eq_nil hnew.closings
    · rw [hold.closings]
      exact List.nil_subset _
  feeds := h.feeds.keep hops same.subs same.closed same.pumps same.feeds hnew.owns
    fun x uri k hk => absurd hk (hold.hasFeed x uri k)
  channels := h.channels.keep h.listed hops same.live same.channels same.ended same.channel
    (fun c => by rw [same.attached]; exact List.Subset.refl _) (fun x c hc => absurd hc (hold.hasChannel x c))
    hnew.streaming hreached hjudged

/-- A request that has nothing in hand is done. -/
lemma goIdle (h : s.Tidy) (hold : (s.ops i).HoldsNothing) : (s.goto i .idle).Tidy :=
  h.keep rfl ⟨rfl, rfl, rfl, rfl, rfl, rfl, rfl, rfl, rfl, rfl⟩ hold (RequestPc.Outside.holdsNothing trivial)
    (fun _ hx => absurd hx List.not_mem_nil) (fun _ _ hon => hon.elim) fun _ hj => hj.elim

/-- Sessions leave the registry, to be closed. -/
lemma unlist (h : s.Tidy) {dead : List ℕ} (creates : Bool) (hold : (s.ops i).HoldsNothing)
    (hdead : ∀ x ∈ dead, x < s.made) : ((s.unlist dead).goto i (closeNext creates dead)).Tidy where
  listed := h.listed.unlist hdead
  shut := by
    refine h.shut.move h.listed rfl (fun x _ => nothingAdded_of_eq rfl rfl x) (staged_closeNext _ _ _) ?_
    intro x hmade hlive hclosings
    rw [closeNext_closings] at hclosings
    refine .inl ⟨hmade, fun hx => hlive ?_, ?_⟩
    · exact List.mem_filter.mpr ⟨hx, by simpa using hclosings⟩
    · rw [hold.closings]
      nofun
  feeds := h.feeds.keep rfl rfl rfl rfl rfl (closeNext_not_owns creates dead)
    fun x uri k hk => absurd hk (hold.hasFeed x uri k)
  channels := by
    refine h.channels.move h.listed rfl (fun x hx => .inl (List.mem_of_mem_filter hx)) (fun c x hc => .inl ⟨hc, ?_⟩)
      (fun _ _ _ hc => hc) ?_ ?_ ?_
    · rintro (hwith | hhas)
      · exact .inl hwith
      · exact absurd hhas (hold.hasChannel x c)
    · intro x c hon
      exact absurd hon (closeNext_not_onChannel creates dead x c)
    · intro x hjudged
      exact absurd hjudged (closeNext_not_judged creates dead x)
    · intro j x _ hstream
      exact ChannelsHeld.streaming_of_streaming hstream rfl (closeNext_ne_streaming creates dead) fun _ => List.Subset.refl _

/-- A new session enters the registry. -/
lemma enlist (h : s.Tidy) (l : (s.enlist.goto i .idle).Listed) (hpc : s.ops i = .creating) :
    (s.enlist.goto i .idle).Tidy where
  listed := l
  shut := by
    refine h.shut.move h.listed rfl (fun x _ => nothingAdded_of_eq rfl rfl x) trivial fun x hmade hlive _ => .inl ?_
    have hout : x ∉ s.live ∧ x ≠ s.made := by simpa [RegistryState.enlist, goto] using hlive
    refine ⟨lt_of_le_of_ne (Nat.lt_succ_iff.mp hmade) hout.2, hout.1, ?_⟩
    rw [hpc]
    nofun
  feeds := h.feeds.keep rfl rfl rfl rfl rfl nofun (by rw [hpc]; nofun)
  channels := by
    refine h.channels.move h.listed rfl (fun x hx => ?_) (fun c x hc => .inl ⟨hc, ?_⟩) (fun _ _ _ hc => hc) nofun nofun
      fun j x _ hstream => ChannelsHeld.streaming_of_streaming hstream rfl nofun fun _ => List.Subset.refl _
    · obtain hx | hx := List.mem_append.mp hx
      · exact .inl hx
      · exact .inr (List.mem_singleton.mp hx).ge
    · rw [hpc]
      exact Or.imp_right False.elim

/-- `session.feeds.pop(uri, None)` finds a feed. -/
lemma pop (h : s.Tidy) {x k : ℕ} {uri : υ} (hpc : s.ops i = .fetched x (.unfollow uri))
    (hsome : (s.feeds x).get uri = some k) (l : s'.Listed) (hops : s'.ops = Function.update s.ops i (.popped x uri k))
    (hfeeds : s'.feeds = Function.update s.feeds x ((s.feeds x).erase uri))
    (same : ({ s with feeds := s'.feeds } : RegistryState ι υ).SameHoldings s') : s'.Tidy where
  listed := l
  shut := by
    refine h.shut.keep h.listed hops same.made same.live (fun y _ => ⟨fun hy => ?_, fun u k' hget => ?_⟩) trivial ?_
    · rw [same.channel, hy]
    · rw [hfeeds] at hget
      by_cases hy : y = x
      · subst hy
        rw [Function.update_self] at hget
        by_cases hu : u = uri
        · rw [hu, OrderedDict.get_erase_self] at hget
          cases hget
        · rwa [OrderedDict.get_erase_ne hu] at hget
      · rwa [Function.update_of_ne hy] at hget
    · rw [hpc]
      exact List.nil_subset _
  feeds := by
    refine h.feeds.move hops same.subs (by rw [same.closed]; exact List.Subset.refl _)
      (fun y k' hk => .inl (same.pumps ▸ hk)) (fun y u hnone => ?_) nofun fun k' y u _ hhad => ?_
    · rw [hfeeds]
      by_cases hy : y = x
      · subst hy
        rw [Function.update_self]
        by_cases hu : u = uri
        · rw [hu, OrderedDict.get_erase_self]
        · rwa [OrderedDict.get_erase_ne hu]
      · rwa [Function.update_of_ne hy]
    · rw [hpc] at hhad
      obtain hget | hhas := hhad
      · rw [hfeeds]
        by_cases hy : y = x
        · subst hy
          rw [Function.update_self]
          by_cases hu : u = uri
          · rw [hu, hsome] at hget
            exact .inr ⟨rfl, hu.symm, Option.some.inj hget⟩
          · exact .inl (by rwa [OrderedDict.get_erase_ne hu])
        · exact .inl (by rwa [Function.update_of_ne hy])
      · exact hhas.elim
  channels := h.channels.keep h.listed hops same.live same.channels same.ended same.channel
    (fun c => by rw [same.attached]; exact List.Subset.refl _) (by rw [hpc]; nofun) nofun nofun nofun

/-- `Session.outbound` makes the channel of a session in the registry. -/
lemma outbound (h : s.Tidy) {x : ℕ} (hpc : s.ops i = .fetched x .stream) (hlive : x ∈ s.live)
    (hnone : s.channel x = none) (l : s'.Listed) (hops : s'.ops = Function.update s.ops i (.opening x s.channels.length))
    (hchannel : s'.channel = Function.update s.channel x (some s.channels.length))
    (hchannels : s'.channels = s.channels ++ [x])
    (same : ({ s with channel := s'.channel, channels := s'.channels } : RegistryState ι υ).SameHoldings s') :
    s'.Tidy where
  listed := l
  shut := by
    refine h.shut.keep h.listed hops same.made same.live (fun y hy => ⟨fun hold => ?_, fun u k hget => ?_⟩) trivial ?_
    · have hne : y ≠ x := by
        rintro rfl
        exact hy hlive
      rw [hchannel, Function.update_of_ne hne, hold]
    · rwa [same.feeds] at hget
    · rw [hpc]
      exact List.nil_subset _
  feeds := h.feeds.keep hops same.subs same.closed same.pumps same.feeds nofun (by rw [hpc]; nofun)
  channels := by
    have hother : ∀ {y c}, s.channel y = some c → s'.channel y = some c := by
      intro y c hc
      have hne : y ≠ x := by
        rintro rfl
        rw [hnone] at hc
        cases hc
      rw [hchannel, Function.update_of_ne hne, hc]
    refine h.channels.move h.listed hops (fun y hy => .inl (same.live ▸ hy)) (fun c y hc => ?_)
      (fun y c _ hc => hother hc) (fun y c hon _ => ?_) nofun fun j y _ hstream => ?_
    · obtain ⟨hc, hnot⟩ := hc
      rw [hchannels, List.getElem?_append] at hc
      rw [same.ended] at hnot
      split at hc
      · refine .inl ⟨⟨hc, hnot⟩, ?_⟩
        rw [hpc]
        rintro (hwith | hhas)
        · exact .inl (hother hwith)
        · exact hhas.elim
      · obtain ⟨hlt, heq⟩ := List.getElem?_eq_some_iff.mp hc
        simp only [List.length_singleton] at hlt
        simp only [List.getElem_singleton] at heq
        obtain rfl : c = s.channels.length := by omega
        exact .inr (by rw [hchannel, ← heq, Function.update_self])
    · obtain ⟨rfl, rfl⟩ := hon
      rw [hchannel, Function.update_self]
    · exact ChannelsHeld.streaming_of_streaming hstream hops nofun fun c => by
        rw [same.attached]
        exact List.Subset.refl _

/-- A stream is opened on a session in the registry that nobody has found expired. -/
lemma openStream (h : s.Tidy) {x c : ℕ} (hpc : s.ops i = .opening x c) (guard : s.GuardedAt (.opening x c))
    (l : s'.Listed) (hops : s'.ops = Function.update s.ops i (.streaming x c))
    (hattached : s'.attached = Function.update s.attached c (s.attached c ++ [i]))
    (same : ({ s with attached := s'.attached } : RegistryState ι υ).SameHoldings s') : s'.Tidy where
  listed := l
  shut := by
    refine h.shut.keep h.listed hops same.made same.live (fun y _ => nothingAdded_of_eq same.channel same.feeds y)
      trivial ?_
    rw [hpc]
    exact List.nil_subset _
  feeds := h.feeds.keep hops same.subs same.closed same.pumps same.feeds nofun (by rw [hpc]; nofun)
  channels := by
    refine h.channels.move h.listed hops (fun y hy => .inl (same.live ▸ hy)) (fun d y hd => .inl ⟨?_, ?_⟩)
      (fun y d _ hd => by rwa [same.channel]) (fun y d hon hlive => ?_) nofun fun j y hj hstream => ?_
    · rw [ChannelOpen, same.channels, same.ended] at hd
      exact hd
    · rw [hpc, same.channel]
      exact Or.imp_right False.elim
    · obtain ⟨rfl, rfl⟩ := hon
      rw [same.channel]
      exact h.channels.reached i x c (by rw [hpc]; exact ⟨rfl, rfl⟩) (same.live ▸ hlive)
    · obtain ⟨j', d, hj', hd⟩ := hstream
      obtain ⟨-, hmine⟩ | ⟨hne, hsame⟩ := ops_cases hops j'
      · obtain ⟨rfl, -⟩ : x = y ∧ c = d := by simpa using hmine.symm.trans hj'
        exact absurd hj (guard j)
      · refine ⟨j', d, hsame.symm.trans hj', ?_⟩
        rw [hattached] at hd
        by_cases hdc : d = c
        · rw [hdc, Function.update_self] at hd
          simpa [hdc, hne] using hd
        · rwa [Function.update_of_ne hdc] at hd

/-! ### `Session.close` -/

variable {x : ℕ} {rest : List ℕ} {creates : Bool}

/-- The channel and the feeds are copied. -/
lemma closeEntering (h : s.Tidy) (hpc : s.ops i = .closing x .entering rest creates) (l : s'.Listed)
    (hops : s'.ops = Function.update s.ops i
      (.closing x (.copied (s.channel x) ((s.feeds x).items.map Prod.snd)) rest creates))
    (hchannel : s'.channel = Function.update s.channel x none)
    (same : ({ s with channel := s'.channel } : RegistryState ι υ).SameHoldings s') : s'.Tidy where
  listed := l
  shut := by
    refine h.shut.keep h.listed hops same.made same.live (fun y _ => ⟨fun hy => ?_, fun u k hget => ?_⟩)
      ⟨?_, fun u k hget => ?_⟩ ?_
    · rw [hchannel]
      by_cases hyx : y = x
      · rw [hyx, Function.update_self]
      · rw [Function.update_of_ne hyx, hy]
    · rwa [same.feeds] at hget
    · rw [hchannel, Function.update_self]
    · rw [same.feeds] at hget
      exact List.mem_map_of_mem (OrderedDict.get_eq_some_iff.mp hget)
    · rw [hpc]
      exact List.Subset.refl _
  feeds := h.feeds.keep hops same.subs same.closed same.pumps same.feeds (fun _ _ hk => hk)
    (by rw [hpc]; exact fun _ _ _ hk => hk.elim)
  channels := by
    have hout : x ∉ s.live := h.listed.closings i x (by rw [hpc]; exact List.mem_cons_self)
    refine h.channels.move h.listed hops (fun y hy => .inl (same.live ▸ hy)) (fun c y hc => .inl ⟨?_, ?_⟩)
      (fun y c hy hc => ?_) (fun _ _ hon => hon.elim) (fun _ hj => hj.elim) fun j y _ hstream => ?_
    · rw [ChannelOpen, same.channels, same.ended] at hc
      exact hc
    · rw [hpc]
      rintro (hwith | hhas)
      · by_cases hyx : y = x
        · exact .inr ⟨hyx.symm, hyx ▸ hwith⟩
        · exact .inl (by rw [hchannel, Function.update_of_ne hyx, hwith])
      · exact hhas.elim
    · have hne : y ≠ x := by
        rintro rfl
        exact hout hy
      rw [hchannel, Function.update_of_ne hne, hc]
    · exact ChannelsHeld.streaming_of_streaming hstream hops (by simp) fun c => by
        rw [same.attached]
        exact List.Subset.refl _

/-- The feeds are assigned. -/
lemma closeCopied (h : s.Tidy) {channel : Option ℕ} {feeds : List ℕ}
    (hpc : s.ops i = .closing x (.copied channel feeds) rest creates) (l : s'.Listed)
    (hops : s'.ops = Function.update s.ops i (.closing x (.closing channel feeds) rest creates))
    (hfeeds : s'.feeds = Function.update s.feeds x .empty)
    (same : ({ s with feeds := s'.feeds } : RegistryState ι υ).SameHoldings s') : s'.Tidy := by
  have hstaged := h.shut.staged i
  rw [hpc] at hstaged
  obtain ⟨hchannel, hcopied⟩ := hstaged
  have hself : ∀ u, (s'.feeds x).get u = none := by
    intro u
    rw [hfeeds, Function.update_self]
    rfl
  have hother : ∀ {y}, y ≠ x → s'.feeds y = s.feeds y := by
    intro y hy
    rw [hfeeds, Function.update_of_ne hy]
  refine ⟨l, ?_, ?_, ?_⟩
  · refine h.shut.keep h.listed hops same.made same.live (fun y _ => ⟨fun hy => ?_, fun u k hget => ?_⟩)
      ⟨?_, hself⟩ ?_
    · rw [same.channel, hy]
    · by_cases hyx : y = x
      · rw [hyx, hself] at hget
        cases hget
      · rwa [hother hyx] at hget
    · rw [same.channel]
      exact hchannel
    · rw [hpc]
      exact List.Subset.refl _
  · refine h.feeds.move hops same.subs (by rw [same.closed]; exact List.Subset.refl _)
      (fun y k hk => .inl (same.pumps ▸ hk)) (fun y u hnone => ?_) nofun fun k y u _ hhad => ?_
    · by_cases hyx : y = x
      · rw [hyx, hself]
      · rwa [hother hyx]
    · rw [hpc] at hhad
      obtain hget | hhas := hhad
      · by_cases hyx : y = x
        · rw [hyx] at hget
          exact .inr ⟨hyx.symm, hcopied u k hget⟩
        · exact .inl (by rwa [hother hyx])
      · exact .inr hhas
  · exact h.channels.keep h.listed hops same.live same.channels same.ended same.channel
      (fun c => by rw [same.attached]; exact List.Subset.refl _) (by rw [hpc]; exact fun _ _ hc => hc) nofun nofun nofun

/-- A feed is closed. -/
lemma closeFeed (h : s.Tidy) {channel : Option ℕ} {k : ℕ} {feeds : List ℕ}
    (hpc : s.ops i = .closing x (.closing channel (k :: feeds)) rest creates) (l : s'.Listed)
    (hops : s'.ops = Function.update s.ops i (.closing x (.closing channel feeds) rest creates))
    (hclosed : s'.closed = s.closed ++ [k])
    (same : ({ s with closed := s'.closed } : RegistryState ι υ).SameHoldings s') : s'.Tidy := by
  have hstaged : s.Emptied x := by
    have := h.shut.staged i
    rwa [hpc] at this
  refine ⟨l, ?_, ?_, ?_⟩
  · refine h.shut.keep h.listed hops same.made same.live (fun y _ => nothingAdded_of_eq same.channel same.feeds y)
      (hstaged.mono (nothingAdded_of_eq same.channel same.feeds x)) ?_
    rw [hpc]
    exact List.Subset.refl _
  · refine h.feeds.move hops same.subs (by rw [hclosed]; exact List.subset_append_left _ _)
      (fun y k' hk => .inl (same.pumps ▸ hk)) (fun y u hnone => by rwa [same.feeds]) nofun fun k' y u hopen hhad => ?_
    rw [hpc] at hhad
    obtain hget | ⟨hy, hk'⟩ := hhad
    · exact .inl (by rwa [same.feeds])
    · obtain rfl | hk' := List.mem_cons.mp hk'
      · exact absurd (by simp [hclosed]) hopen.2
      · exact .inr ⟨hy, hk'⟩
  · exact h.channels.keep h.listed hops same.live same.channels same.ended same.channel
      (fun c => by rw [same.attached]; exact List.Subset.refl _) (by rw [hpc]; exact fun _ _ hc => hc) nofun nofun nofun

/-- The channel is closed, if there is one, and with it the session. -/
lemma closeChannel (h : s.Tidy) {channel : Option ℕ} (hpc : s.ops i = .closing x (.closing channel []) rest creates)
    (l : s'.Listed) (hops : s'.ops = Function.update s.ops i (closeNext creates rest)) (hended : s.ended ⊆ s'.ended)
    (hchannel : ∀ c, channel = some c → c ∈ s'.ended) (hattached : ∀ c, s'.attached c ⊆ s.attached c)
    (same : ({ s with ended := s'.ended, attached := s'.attached } : RegistryState ι υ).SameHoldings s') : s'.Tidy := by
  have hstaged : s.Emptied x := by
    have := h.shut.staged i
    rwa [hpc] at this
  refine ⟨l, ?_, ?_, ?_⟩
  · refine h.shut.move h.listed hops (fun y _ => nothingAdded_of_eq same.channel same.feeds y) (staged_closeNext _ _ _)
      fun y hmade hlive hclosings => ?_
    rw [closeNext_closings] at hclosings
    by_cases hyx : y = x
    · rw [hyx]
      exact .inr (hstaged.mono (nothingAdded_of_eq same.channel same.feeds x))
    · refine .inl ⟨same.made ▸ hmade, same.live ▸ hlive, ?_⟩
      rw [hpc]
      exact List.not_mem_cons_of_ne_of_not_mem hyx hclosings
  · exact h.feeds.keep hops same.subs same.closed same.pumps same.feeds (closeNext_not_owns creates rest)
      (by rw [hpc]; exact fun _ _ _ hk => nomatch hk.2)
  · refine h.channels.move h.listed hops (fun y hy => .inl (same.live ▸ hy)) (fun c y hc => .inl ⟨?_, ?_⟩)
      (fun y c _ hc => by rwa [same.channel]) ?_ ?_ fun j y _ hstream => ?_
    · obtain ⟨hc, hnot⟩ := hc
      rw [same.channels] at hc
      exact ⟨hc, fun hmem => hnot (hended hmem)⟩
    · rw [hpc, same.channel]
      rintro (hwith | ⟨-, hhas⟩)
      · exact .inl hwith
      · exact absurd (hchannel c hhas) hc.2
    · intro y c hon
      exact absurd hon (closeNext_not_onChannel creates rest y c)
    · intro y hjudged
      exact absurd hjudged (closeNext_not_judged creates rest y)
    · exact ChannelsHeld.streaming_of_streaming hstream hops (closeNext_ne_streaming creates rest) hattached

/-- The errands of a request with a session in hand. -/
lemma attend (h : s.Tidy) {x : ℕ} {errand : Errand υ} (hpc : s.ops i = .fetched x errand)
    (guard : s.GuardedAt (.fetched x errand)) : (s.attend i x errand).Tidy := by
  have l := h.listed.attend hpc
  have hmade : x < s.made := h.listed.sessions i x (by rw [hpc]; exact List.mem_singleton_self _)
  have hold : (s.ops i).HoldsNothing := by
    rw [hpc]
    exact RequestPc.Outside.holdsNothing trivial
  have hidle : (s.goto i .idle).Tidy := h.goIdle hold
  cases errand with
  | follow uri =>
    rw [RegistryState.attend]
    split
    · exact hidle
    · refine h.keep rfl ⟨rfl, rfl, rfl, rfl, rfl, rfl, rfl, rfl, rfl, rfl⟩ hold ?_ ?_
        (fun _ _ hon => hon.elim) fun _ hj => hj.elim
      · exact RequestPc.Outside.holdsNothing trivial
      · intro y hy
        rwa [List.mem_singleton.mp hy]
  | unfollow uri =>
    rw [RegistryState.attend] at l ⊢
    split at l
    next => exact hidle
    next k hsome => exact h.pop hpc hsome l rfl rfl ⟨rfl, rfl, rfl, rfl, rfl, rfl, rfl, rfl, rfl, rfl⟩
  | stream =>
    rw [RegistryState.attend] at l ⊢
    split at l
    next c hsome =>
      refine h.keep rfl ⟨rfl, rfl, rfl, rfl, rfl, rfl, rfl, rfl, rfl, rfl⟩ hold ?_ ?_ (fun y d hon _ => ?_)
        fun _ hj => hj.elim
      · exact RequestPc.Outside.holdsNothing trivial
      · intro y hy
        rwa [List.mem_singleton.mp hy]
      · obtain ⟨rfl, rfl⟩ := hon
        exact hsome
    next hnone =>
      exact h.outbound hpc (guard hnone) hnone l rfl rfl rfl ⟨rfl, rfl, rfl, rfl, rfl, rfl, rfl, rfl, rfl, rfl⟩
  | other => exact hidle

lemma closeStep (h : s.Tidy) {at' : ClosePc} (hpc : s.ops i = .closing x at' rest creates) :
    (s.closeStep i x rest creates at').Tidy := by
  have l := h.listed.closeStep hpc
  cases at' with
  | entering => exact h.closeEntering hpc l rfl rfl ⟨rfl, rfl, rfl, rfl, rfl, rfl, rfl, rfl, rfl, rfl⟩
  | copied channel feeds => exact h.closeCopied hpc l rfl rfl ⟨rfl, rfl, rfl, rfl, rfl, rfl, rfl, rfl, rfl, rfl⟩
  | closing channel feeds =>
    cases feeds with
    | cons k feeds => exact h.closeFeed hpc l rfl rfl ⟨rfl, rfl, rfl, rfl, rfl, rfl, rfl, rfl, rfl, rfl⟩
    | nil =>
      cases channel with
      | none =>
        exact h.closeChannel hpc l rfl (List.Subset.refl _) nofun (fun _ => List.Subset.refl _)
          ⟨rfl, rfl, rfl, rfl, rfl, rfl, rfl, rfl, rfl, rfl⟩
      | some c =>
        refine h.closeChannel hpc l rfl (List.subset_append_left _ _) (fun d hd => ?_) (fun d => ?_)
          ⟨rfl, rfl, rfl, rfl, rfl, rfl, rfl, rfl, rfl, rfl⟩
        · cases hd
          exact List.mem_append_right _ (List.mem_singleton_self _)
        · change Function.update s.attached c [] d ⊆ s.attached d
          by_cases hdc : d = c
          · rw [hdc, Function.update_self]
            exact List.nil_subset _
          · rw [Function.update_of_ne hdc]
            exact List.Subset.refl _

/-- A step that changes neither the registry, nor what the sessions have, nor the channels. -/
lemma passFeeds (h : s.Tidy) (l : s'.Listed) (f : s'.FeedsHeld) (hops : s'.ops = Function.update s.ops i pc)
    (hold : (s.ops i).closings = []) (hhas : ∀ y c, ¬ (s.ops i).HasChannel y c) (hclosings : pc.closings = [])
    (hon : ∀ y c, ¬ pc.OnChannel y c) (hjudged : ∀ y, ¬ pc.Judged y)
    (hadded : ∀ y ∉ s.live, s.NothingAdded s' y) (hlive : s'.live = s.live) (hmade : s'.made = s.made)
    (hchannel : s'.channel = s.channel) (hchannels : s'.channels = s.channels) (hended : s'.ended = s.ended)
    (hattached : ∀ c, s'.attached c ⊆ s.attached c) : s'.Tidy where
  listed := l
  shut := h.shut.keep h.listed hops hmade hlive hadded (staged_of_closings_eq_nil hclosings)
    (by rw [hold]; exact List.nil_subset _)
  feeds := f
  channels := by
    refine h.channels.keep h.listed hops hlive hchannels hended hchannel hattached
      (fun y c hc => absurd hc (hhas y c)) (fun y c hpc => ?_) (fun y c hc => absurd hc (hon y c))
      fun y hj => absurd hj (hjudged y)
    exact hon y c (by rw [hpc]; exact ⟨rfl, rfl⟩)

/-- One operation of a request. -/
lemma advance (h : s.Tidy) (guard : s.GuardedAt (s.ops i)) (taken : s.advance idle limit i (s.ops i) = some s') :
    s'.Tidy := by
  have l := h.listed.advance taken
  have hmine := h.listed.sessions i
  have refl : ∀ c, s.attached c ⊆ s.attached c := fun _ => List.Subset.refl _
  cases hpc : s.ops i with rw [hpc] at taken hmine guard
  | idle => cases taken
  | sweeping todo dead =>
    have hold : (s.ops i).HoldsNothing := by
      rw [hpc]
      exact RequestPc.Outside.holdsNothing trivial
    cases todo with
    | nil =>
      cases taken
      exact h.unlist true hold hmine
    | cons x todo =>
      cases taken
      have hsame : s.SameHoldings (s.goto i (.sweeping todo (if s.expired idle x then dead ++ [x] else dead))) :=
        ⟨rfl, rfl, rfl, rfl, rfl, rfl, rfl, rfl, rfl, rfl⟩
      refine h.keep rfl hsame hold (RequestPc.Outside.holdsNothing trivial)
        (fun y hy => l.sessions i y ?_) (fun _ _ hon => hon.elim) ?_
      · change y ∈ (Function.update s.ops i _ i).sessions
        rw [Function.update_self]
        exact hy
      · intro y hy hlive
        change y ∈ (if s.expired idle x then dead ++ [x] else dead) at hy
        have hdead : y ∈ dead → ¬ s.Streaming y := fun hd => h.channels.judged i y (by rw [hpc]; exact hd) hlive
        split at hy
        next hexpired =>
          obtain hy | hy := List.mem_append.mp hy
          · exact hdead hy
          · obtain rfl := List.mem_singleton.mp hy
            exact h.channels.not_streaming_of_expired hlive hexpired
        next => exact hdead hy
  | creating =>
    have hold : (s.ops i).HoldsNothing := by
      rw [hpc]
      exact RequestPc.Outside.holdsNothing trivial
    simp only [RegistryState.advance] at taken
    split at taken
    · cases taken
    · split at taken
      · cases taken
        exact h.goIdle hold
      · cases taken
        exact h.enlist l hpc
  | judging x errand verdict =>
    have hold : (s.ops i).HoldsNothing := by
      rw [hpc]
      exact RequestPc.Outside.holdsNothing trivial
    cases verdict with
    | true =>
      cases taken
      exact h.unlist false hold hmine
    | false =>
      cases taken
      refine h.keep rfl ⟨rfl, rfl, rfl, rfl, rfl, rfl, rfl, rfl, rfl, rfl⟩ hold ?_ hmine (fun _ _ hon => hon.elim)
        fun _ hj => hj.elim
      exact RequestPc.Outside.holdsNothing trivial
  | fetched x errand =>
    cases taken
    exact h.attend hpc guard
  | absent x uri =>
    cases taken
    exact h.passFeeds l (h.feeds.subscribe h.listed hpc guard rfl rfl rfl rfl rfl) rfl (by rw [hpc]; rfl) (by rw [hpc]; exact fun _ _ hc => hc)
      rfl (fun _ _ hon => hon) (fun _ hj => hj)
      (fun y _ => nothingAdded_of_eq rfl rfl y) rfl rfl rfl rfl rfl refl
  | subscribed x uri k =>
    cases taken
    refine h.passFeeds l (h.feeds.store hpc rfl rfl rfl rfl rfl) rfl (by rw [hpc]; rfl) (by rw [hpc]; exact fun _ _ hc => hc)
      rfl (fun _ _ hon => hon) (fun _ hj => hj) (fun y hy => ?_)
      rfl rfl rfl rfl rfl refl
    have hne : y ≠ x := by
      rintro rfl
      exact hy guard
    refine ⟨id, fun u k' hget => ?_⟩
    change (Function.update s.feeds x _ y).get u = some k' at hget
    rwa [Function.update_of_ne hne] at hget
  | stored x k =>
    cases taken
    refine h.passFeeds l ?_ rfl (by rw [hpc]; rfl) (by rw [hpc]; exact fun _ _ hc => hc)
      rfl (fun _ _ hon => hon) (fun _ hj => hj)
      (fun y _ => nothingAdded_of_eq rfl rfl y) rfl rfl rfl rfl rfl refl
    refine h.feeds.move rfl rfl (List.Subset.refl _) (fun y k' hk => ?_) (fun _ _ hnone => hnone)
      (fun _ _ hk => hk)
      fun k' y u _ hhad => ?_
    · rw [hpc]
      refine (List.mem_append.mp hk).imp_right fun hk => ?_
      obtain ⟨rfl, rfl⟩ := Prod.mk.inj (List.mem_singleton.mp hk)
      exact ⟨rfl, rfl⟩
    · rw [hpc] at hhad
      exact hhad.imp_right False.elim
  | popped x uri k =>
    cases taken
    refine h.passFeeds l ?_ rfl (by rw [hpc]; rfl) (by rw [hpc]; exact fun _ _ hc => hc)
      rfl (fun _ _ hon => hon) (fun _ hj => hj)
      (fun y _ => nothingAdded_of_eq rfl rfl y) rfl rfl rfl rfl rfl refl
    refine h.feeds.move rfl rfl (List.subset_append_left _ _) (fun _ _ hk => .inl hk) (fun _ _ hnone => hnone)
      (fun _ _ hk => hk)
      fun k' y u hopen hhad => ?_
    rw [hpc] at hhad
    obtain hget | ⟨-, -, rfl⟩ := hhad
    · exact .inl hget
    · exact absurd (List.mem_append_right _ (List.mem_singleton_self _)) hopen.2
  | opening x c =>
    cases taken
    exact h.openStream hpc guard l rfl rfl ⟨rfl, rfl, rfl, rfl, rfl, rfl, rfl, rfl, rfl, rfl⟩
  | streaming x c =>
    cases taken
    refine h.passFeeds l (h.feeds.keep rfl rfl rfl rfl rfl (fun _ _ hk => hk)
        (by rw [hpc]; exact fun _ _ _ hk => hk.elim)) rfl (by rw [hpc]; rfl)
      (by rw [hpc]; exact fun _ _ hc => hc)
      rfl (fun _ _ hon => hon) (fun _ hj => hj) (fun y _ => nothingAdded_of_eq rfl rfl y) rfl rfl rfl rfl rfl fun d => ?_
    change Function.update s.attached c ((s.attached c).erase i) d ⊆ s.attached d
    by_cases hdc : d = c
    · rw [hdc, Function.update_self]
      exact List.erase_subset
    · rw [Function.update_of_ne hdc]
      exact List.Subset.refl _
  | closing x at' rest creates =>
    cases taken
    exact h.closeStep hpc

/-- One step of a run. -/
lemma step {a : RegistryAction ι υ} (h : s.Tidy) (guarded : s.Guarded a) (taken : s.step idle limit a = some s') :
    s'.Tidy := by
  have hidle : ∀ {i}, s.ops i = .idle → (s.ops i).HoldsNothing := by
    intro i hpc
    rw [hpc]
    exact RequestPc.Outside.holdsNothing trivial
  cases a with
  | tick d =>
    cases taken
    exact ⟨⟨h.listed.known, h.listed.sessions, h.listed.closings⟩, ⟨h.shut.staged, h.shut.emptied⟩,
      ⟨h.feeds.held, h.feeds.reserved, h.feeds.owned, h.feeds.pumped, h.feeds.single⟩,
      ⟨h.channels.held, h.channels.reached, h.channels.judged⟩⟩
  | create i =>
    simp only [RegistryState.step] at taken
    split at taken
    next hpc _ =>
      cases taken
      refine h.keep rfl ⟨rfl, rfl, rfl, rfl, rfl, rfl, rfl, rfl, rfl, rfl⟩ (hidle hpc)
        (RequestPc.Outside.holdsNothing trivial) (fun x hx => ?_) (fun _ _ hon => hon.elim) ?_
      · obtain hx | hx := List.mem_append.mp hx
        · exact h.listed.known x hx
        · cases hx
      · intro x hj
        cases hj
    next => cases taken
  | get i x errand =>
    simp only [RegistryState.step] at taken
    split at taken
    next hpc _ =>
      split at taken
      next hlive =>
        cases taken
        refine h.keep rfl ⟨rfl, rfl, rfl, rfl, rfl, rfl, rfl, rfl, rfl, rfl⟩ (hidle hpc)
          (RequestPc.Outside.holdsNothing trivial) (fun y hy => ?_) (fun _ _ hon => hon.elim) fun y hy _ => ?_
        · rw [List.mem_singleton.mp hy]
          exact h.listed.known x hlive
        · obtain ⟨hexpired, rfl⟩ := hy
          exact h.channels.not_streaming_of_expired hlive hexpired
      next =>
        cases taken
        exact h
    next => cases taken
  | delete i x =>
    simp only [RegistryState.step] at taken
    split at taken
    next hpc _ =>
      split at taken
      next hlive =>
        cases taken
        refine h.unlist false (hidle hpc) fun y hy => ?_
        rw [List.mem_singleton.mp hy]
        exact h.listed.known x hlive
      next =>
        cases taken
        exact h
    next => cases taken
  | refuse i =>
    simp only [RegistryState.step] at taken
    split at taken
    next x errand hpc =>
      cases taken
      apply h.goIdle
      rw [hpc]
      exact RequestPc.Outside.holdsNothing trivial
    next => cases taken
  | step i => exact h.advance guarded taken
  | endPump x k =>
    obtain ⟨-, rfl⟩ := of_guard taken
    refine ⟨⟨h.listed.known, h.listed.sessions, h.listed.closings⟩, ⟨h.shut.staged, h.shut.emptied⟩,
      ⟨h.feeds.held, h.feeds.reserved, h.feeds.owned, fun y k' hk => ?_, h.feeds.single⟩,
      ⟨h.channels.held, h.channels.reached, h.channels.judged⟩⟩
    exact h.feeds.pumped y k' (List.mem_of_mem_erase hk)

end Tidy

end RegistryState

end Oxbrook
