import Oxbrook.Auth.Handoff
import Mathlib.Data.Fintype.Basic
import Mathlib.Data.List.Nodup

/-!
# A socket runs with its own caller

`own_caller` says that the handler of a socket runs with whom the gate of the same handshake found, whatever the
interleaving of any number of handshakes.  What is asked of the application is `Contract`: its code leaves the header
of the hand-off and `request.locals["principal"]` to the framework; and `secrets.token_urlsafe` does not repeat a key.
-/

namespace Oxbrook

open StepMachine

variable {η P : Type}

namespace GateReply

/-- No header of the reply is that of the hand-off. -/
def Unnamed (reply : GateReply) : Prop := ∀ header ∈ reply.headers.items, namesHandoff header.1 = false

/-- The headers of the hand-off in the reply have the value `key`. -/
def Names (reply : GateReply) (key : Option String) : Prop :=
  ∀ header ∈ reply.headers.items, namesHandoff header.1 = true → key = some header.2

instance (reply : GateReply) : Decidable reply.Unnamed := by
  unfold Unnamed
  infer_instance

lemma Unnamed.names {reply : GateReply} (h : reply.Unnamed) (key : Option String) : reply.Names key := by
  intro header hmem hnames
  rw [h header hmem] at hnames
  cases hnames

/-- The key that the gate puts into a reply is the only one in it. -/
lemma Unnamed.names_hand {reply : GateReply} (h : reply.Unnamed) (key : String) :
    (reply.hand key).Names (some key) := by
  intro header hmem hnames
  obtain rfl | ⟨hold, -⟩ := OrderedDict.mem_setItems.mp hmem
  · rfl
  · rw [h header hold] at hnames
    cases hnames

/-- The server reads a key that the reply names. -/
lemma Names.handoff {reply : GateReply} {left : Option String} (h : reply.Names left) {key : String}
    (hkey : reply.handoff = some key) : left = some key := by
  obtain ⟨header, hfind, rfl⟩ := Option.map_eq_some_iff.mp hkey
  have hnames := List.find?_some hfind
  exact h header (List.mem_of_find?_eq_some hfind) hnames

end GateReply

namespace HandoffState

/-! ## What is asked of the application -/

/-- The application's code gives no reply a header of the hand-off, and hands on none but the one that is there; it
leaves the caller that the gate found where it is.  Keys are new. -/
def Contract (s : HandoffState η P) : HandoffAction η P → Prop
  | .answer _ reply => reply.Unnamed
  | .raise _ reply => reply.Unnamed
  | .callNext h kept reply =>
    match s.pc h with
    | .admitted found => kept = found ∧ reply.Unnamed
    | _ => True
  | .leave _ key => ∀ h, s.left h ≠ some key
  | .handOn h reply =>
    match s.pc h with
    | .linked reply' => ∀ header ∈ reply.headers.items, namesHandoff header.1 = true → header ∈ reply'.headers.items
    | _ => True
  | _ => True

/-! ## What a run keeps -/

variable (client : η → List (String × String))

/-- What is known of a handshake at each place. -/
def Placed (s : HandoffState η P) (h : η) : HandshakePc P → Prop
  | .arrived => s.left h = none
  | .gating => s.left h = none
  | .admitted found => s.left h = none ∧ s.returned h = some found
  | .answered kept reply => s.left h = none ∧ s.returned h = some kept ∧ reply.Unnamed
  | .leaving kept reply _ _ => s.left h = none ∧ s.returned h = some kept ∧ reply.Unnamed ∧ s.accepted h = true
  | .linked reply => reply.Names (s.left h)
  | .replied reply => reply.Names (s.left h)
  | .decided handoff => ∀ key, handoff = some key → s.left h = some key
  | .queued request => request.headers = client h ∧ ∀ key, request.handoff = some key → s.left h = some key
  | .running found => s.returned h = some found ∧ s.accepted h = true
  | .refused => True
  | .closed => True

/-- Every entry was left by a handshake that was accepted, with whom its gate found; a key is left by one handshake, and
is gone when it was redeemed. -/
structure Carried (s : HandoffState η P) : Prop where
  placed : ∀ h, s.Placed client h (s.pc h)
  entries : ∀ key expires found, s.waiting.get key = some (expires, found) →
    ∃ h, s.left h = some key ∧ s.returned h = some found ∧ s.accepted h = true
  apart : ∀ h h' key, s.left h = some key → s.left h' = some key → h = h'
  once : s.redeemed.Nodup
  spent : ∀ key ∈ s.redeemed, s.waiting.get key = none ∧ ∃ h, s.left h = some key

lemma carried_new : (new : HandoffState η P).Carried client where
  placed _ := rfl
  entries _ _ _ h := nomatch h
  apart _ _ _ h := nomatch h
  once := .nil
  spent := nofun

/-- What is known of a handshake depends on its own histories. -/
lemma Placed.congr {client : η → List (String × String)} {s s' : HandoffState η P} {h : η} {pc : HandshakePc P}
    (placed : s.Placed client h pc) (hleft : s'.left h = s.left h) (hreturned : s'.returned h = s.returned h)
    (haccepted : s'.accepted h = s.accepted h) : s'.Placed client h pc := by
  cases pc <;> simp only [Placed, hleft, hreturned, haccepted] at placed ⊢ <;> exact placed

/-- An entry that a handler finds is in the table, under the key of its request. -/
lemma entry_eq_some {s : HandoffState η P} {handoff : Option String} {key : String} {found : Waiting P}
    (h : s.entry handoff = some (key, found)) : handoff = some key ∧ s.waiting.get key = some found := by
  cases handoff with
  | none => cases h
  | some key' =>
    obtain ⟨-, hsome⟩ := Option.ite_none_left_eq_some.mp h
    obtain ⟨found', hget, heq⟩ := Option.map_eq_some_iff.mp hsome
    obtain ⟨rfl, rfl⟩ := Prod.mk.inj heq
    exact ⟨rfl, hget⟩

variable [DecidableEq η]

namespace Carried

variable {client} {s s' : HandoffState η P} {h : η} {pc : HandshakePc P}

/-- The place of one handshake and its histories change. -/
lemma placed_of_update (c : s.Carried client) (hpc : s'.pc = Function.update s.pc h pc)
    (hleft : ∀ j ≠ h, s'.left j = s.left j) (hreturned : ∀ j ≠ h, s'.returned j = s.returned j)
    (haccepted : ∀ j ≠ h, s'.accepted j = s.accepted j) (hplaced : s'.Placed client h pc) :
    ∀ j, s'.Placed client j (s'.pc j) := by
  intro j
  rw [hpc]
  by_cases hj : j = h
  · subst hj
    rw [Function.update_self]
    exact hplaced
  · rw [Function.update_of_ne hj]
    exact (c.placed j).congr (hleft j hj) (hreturned j hj) (haccepted j hj)

/-- A handshake goes on, and nothing else happens. -/
lemma goto (c : s.Carried client) (hplaced : s.Placed client h pc) : (s.goto h pc).Carried client where
  placed := c.placed_of_update rfl (fun _ _ => rfl) (fun _ _ => rfl) (fun _ _ => rfl)
    (hplaced.congr rfl rfl rfl)
  entries := c.entries
  apart := c.apart
  once := c.once
  spent := c.spent

/-- The gate returns. -/
lemma identify (c : s.Carried client) (hpc : s.pc h = .gating) (found : Option P) :
    ({ s with returned := Function.update s.returned h (some found) }.goto h (.admitted found)).Carried client := by
  have hleft : s.left h = none := by
    have := c.placed h
    rwa [hpc] at this
  refine ⟨c.placed_of_update rfl (fun _ _ => rfl) (fun j hj => Function.update_of_ne hj _ _) (fun _ _ => rfl)
    ⟨hleft, Function.update_self _ _ _⟩, fun key expires found' hget => ?_, c.apart, c.once, c.spent⟩
  obtain ⟨j, hj, hreturned, haccepted⟩ := c.entries key expires found' hget
  have hne : j ≠ h := by
    rintro rfl
    rw [hleft] at hj
    cases hj
  exact ⟨j, hj, (Function.update_of_ne hne _ _).trans hreturned, haccepted⟩

/-- The gate finds the upgrade accepted. -/
lemma accept (c : s.Carried client) {kept : Option P} {reply : GateReply} (hpc : s.pc h = .answered kept reply)
    (now : ℕ) (todo : List (String × Waiting P)) :
    ({ s with accepted := Function.update s.accepted h true }.goto h (.leaving kept reply now todo)).Carried client := by
  have hplaced := c.placed h
  rw [hpc] at hplaced
  obtain ⟨hleft, hreturned, hunnamed⟩ := hplaced
  refine ⟨c.placed_of_update rfl (fun _ _ => rfl) (fun _ _ => rfl) (fun j hj => Function.update_of_ne hj _ _)
    ⟨hleft, hreturned, hunnamed, Function.update_self _ _ _⟩, fun key expires found hget => ?_, c.apart, c.once, c.spent⟩
  obtain ⟨j, hj, hfound, haccepted⟩ := c.entries key expires found hget
  refine ⟨j, hj, hfound, ?_⟩
  change Function.update s.accepted h true j = true
  by_cases hjh : j = h
  · rw [hjh, Function.update_self]
  · rw [Function.update_of_ne hjh, haccepted]

omit [DecidableEq η] in
/-- An entry goes, or none. -/
lemma erase (c : s.Carried client) (key : String) : ({ s with waiting := s.waiting.erase key }).Carried client := by
  have hget : ∀ {key' found}, (s.waiting.erase key).get key' = some found → s.waiting.get key' = some found := by
    intro key' found hsome
    by_cases hkey : key' = key
    · rw [hkey, OrderedDict.get_erase_self] at hsome
      cases hsome
    · rwa [OrderedDict.get_erase_ne hkey] at hsome
  refine ⟨fun j => (c.placed j).congr rfl rfl rfl, fun key' expires found hsome => c.entries key' expires found (hget hsome),
    c.apart, c.once, fun key' hmem => ⟨?_, (c.spent key' hmem).2⟩⟩
  change (s.waiting.erase key).get key' = none
  by_cases hkey : key' = key
  · rw [hkey, OrderedDict.get_erase_self]
  · rw [OrderedDict.get_erase_ne hkey, (c.spent key' hmem).1]

/-- `_leave` stores an entry under a new key. -/
lemma leave (c : s.Carried client) {kept : Option P} {reply : GateReply} {now : ℕ} {todo : List (String × Waiting P)}
    (hpc : s.pc h = .leaving kept reply now todo) {key : String} (hnew : ∀ j, s.left j ≠ some key) (expires : ℕ) :
    ({ s with
      waiting := s.waiting.set key (expires, kept)
      left := Function.update s.left h (some key) }.goto h (.linked (reply.hand key))).Carried client := by
  have hplaced := c.placed h
  rw [hpc] at hplaced
  obtain ⟨hleft, hreturned, hunnamed, haccepted⟩ := hplaced
  have hself : Function.update s.left h (some key) h = some key := Function.update_self _ _ _
  have hkept : ∀ {j key'}, s.left j = some key' → Function.update s.left h (some key) j = some key' := by
    intro j key' hj
    have hne : j ≠ h := by
      rintro rfl
      rw [hleft] at hj
      cases hj
    rw [Function.update_of_ne hne, hj]
  refine ⟨c.placed_of_update rfl (fun j hj => Function.update_of_ne hj _ _) (fun _ _ => rfl) (fun _ _ => rfl) ?_,
    fun key' e found hget => ?_, fun j j' key' hj hj' => ?_, c.once, fun key' hmem => ?_⟩
  · change (reply.hand key).Names (Function.update s.left h (some key) h)
    rw [hself]
    exact hunnamed.names_hand key
  · change (s.waiting.set key (expires, kept)).get key' = some (e, found) at hget
    by_cases hkey : key' = key
    · rw [hkey, OrderedDict.get_set_self] at hget
      obtain ⟨-, rfl⟩ := Prod.mk.inj (Option.some.inj hget)
      exact ⟨h, hkey ▸ hself, hreturned, haccepted⟩
    · rw [OrderedDict.get_set_ne hkey] at hget
      obtain ⟨j, hj, hfound⟩ := c.entries key' e found hget
      exact ⟨j, hkept hj, hfound⟩
  · -- the new key is with this handshake only
    change Function.update s.left h (some key) j = some key' at hj
    change Function.update s.left h (some key) j' = some key' at hj'
    have hold : ∀ {j}, Function.update s.left h (some key) j = some key' → j = h ∧ key' = key ∨ s.left j = some key' := by
      intro j hj
      by_cases hjh : j = h
      · rw [hjh, hself] at hj
        exact .inl ⟨hjh, (Option.some.inj hj).symm⟩
      · rw [Function.update_of_ne hjh] at hj
        exact .inr hj
    obtain ⟨hjh, hkey⟩ | hold₁ := hold hj
    · obtain ⟨hjh', -⟩ | hold₂ := hold hj'
      · rw [hjh, hjh']
      · exact absurd (hkey ▸ hold₂) (hnew j')
    · obtain ⟨-, hkey⟩ | hold₂ := hold hj'
      · exact absurd (hkey ▸ hold₁) (hnew j)
      · exact c.apart j j' key' hold₁ hold₂
  · obtain ⟨hnone, j, hj⟩ := c.spent key' hmem
    have hkey : key' ≠ key := by
      rintro rfl
      exact hnew j hj
    refine ⟨?_, j, hkept hj⟩
    change (s.waiting.set key (expires, kept)).get key' = none
    rw [OrderedDict.get_set_ne hkey, hnone]

/-- The handler starts. -/
lemma receive (c : s.Carried client) {request : SocketRequest} (hpc : s.pc h = .queued request) :
    (s.receive h request).Carried client := by
  have hplaced := c.placed h
  rw [hpc] at hplaced
  rw [HandoffState.receive]
  split
  next => exact c.goto trivial
  next key expires found hentry =>
    obtain ⟨hhandoff, hget⟩ := entry_eq_some hentry
    obtain ⟨j, hj, hreturned, haccepted⟩ := c.entries key expires found hget
    obtain rfl := c.apart j h key hj (hplaced.2 key hhandoff)
    have herased := c.erase key
    have hfresh : key ∉ s.redeemed := by
      intro hmem
      rw [(c.spent key hmem).1] at hget
      cases hget
    refine ⟨herased.placed_of_update rfl (fun _ _ => rfl) (fun _ _ => rfl) (fun _ _ => rfl) ⟨hreturned, haccepted⟩,
      herased.entries, herased.apart, ?_, fun key' hmem => ?_⟩
    · exact List.nodup_append.mpr ⟨c.once, List.nodup_singleton _, fun a ha b hb hab => by
        rw [hab, List.mem_singleton.mp hb] at ha
        exact hfresh ha⟩
    · obtain hmem | hmem := List.mem_append.mp hmem
      · exact herased.spent key' hmem
      · rw [List.mem_singleton.mp hmem]
        exact ⟨OrderedDict.get_erase_self, j, hj⟩

/-- One step. -/
lemma step {a : HandoffAction η P} (c : s.Carried client) (contract : s.Contract a)
    (taken : s.step client a = some s') : s'.Carried client := by
  cases a with
  | tick d =>
    cases taken
    exact ⟨fun j => (c.placed j).congr rfl rfl rfl, c.entries, c.apart, c.once, c.spent⟩
  | enqueueGate h room =>
    simp only [HandoffState.step] at taken
    split at taken
    next hpc =>
      cases taken
      have hplaced := c.placed h
      rw [hpc] at hplaced
      cases room with
      | true => exact c.goto hplaced
      | false => exact c.goto trivial
    next => cases taken
  | answer h reply =>
    simp only [HandoffState.step] at taken
    split at taken
    next =>
      cases taken
      exact c.goto (GateReply.Unnamed.names contract _)
    next => cases taken
  | identify h found =>
    simp only [HandoffState.step] at taken
    split at taken
    next hpc =>
      cases taken
      exact c.identify hpc found
    next => cases taken
  | raise h reply =>
    simp only [HandoffState.step] at taken
    split at taken
    next =>
      cases taken
      exact c.goto (GateReply.Unnamed.names contract _)
    next =>
      cases taken
      exact c.goto (GateReply.Unnamed.names contract _)
    next => cases taken
  | callNext h kept reply =>
    simp only [HandoffState.step] at taken
    split at taken
    next found hpc =>
      cases taken
      have hplaced := c.placed h
      simp only [Contract, hpc] at contract hplaced
      obtain ⟨rfl, hunnamed⟩ := contract
      exact c.goto ⟨hplaced.1, hplaced.2, hunnamed⟩
    next => cases taken
  | look h =>
    simp only [HandoffState.step] at taken
    split at taken
    next kept reply hpc =>
      split at taken
      next =>
        cases taken
        exact c.accept hpc s.now s.waiting.items
      next =>
        cases taken
        have hplaced := c.placed h
        rw [hpc] at hplaced
        exact c.goto (hplaced.2.2.names _)
    next => cases taken
  | prune h =>
    simp only [HandoffState.step] at taken
    split at taken
    next kept reply now key expires found todo hpc =>
      cases taken
      have hplaced := c.placed h
      rw [hpc] at hplaced
      by_cases hexpired : expires < now
      · rw [if_pos hexpired]
        exact (c.erase key).goto (hplaced.congr rfl rfl rfl)
      · rw [if_neg hexpired]
        exact c.goto hplaced
    next => cases taken
  | leave h key =>
    simp only [HandoffState.step] at taken
    split at taken
    next kept reply now hpc =>
      cases taken
      exact c.leave hpc contract (now + handoffTtl)
    next => cases taken
  | handOn h reply =>
    simp only [HandoffState.step] at taken
    split at taken
    next reply' hpc =>
      cases taken
      have hplaced := c.placed h
      simp only [Contract, hpc] at contract hplaced
      exact c.goto fun header hmem hnames => hplaced header (contract header hmem hnames) hnames
    next => cases taken
  | abandon h =>
    simp only [HandoffState.step] at taken
    split at taken
    iterate 4
      next =>
        cases taken
        exact c.goto trivial
    next => cases taken
  | decide h =>
    simp only [HandoffState.step] at taken
    split at taken
    next reply hpc =>
      cases taken
      have hplaced := c.placed h
      rw [hpc] at hplaced
      by_cases hstatus : reply.status = 101
      · rw [if_pos hstatus]
        exact c.goto fun key hkey => GateReply.Names.handoff hplaced hkey
      · rw [if_neg hstatus]
        exact c.goto trivial
    next => cases taken
  | enqueueHandler h room =>
    simp only [HandoffState.step] at taken
    split at taken
    next handoff hpc =>
      cases taken
      have hplaced := c.placed h
      rw [hpc] at hplaced
      cases room with
      | true => exact c.goto ⟨rfl, hplaced⟩
      | false => exact c.goto trivial
    next => cases taken
  | start h =>
    simp only [HandoffState.step] at taken
    split at taken
    next request hpc =>
      cases taken
      exact c.receive hpc
    next => cases taken

end Carried

/-! ## The caller of a socket -/

/-- A running target has the caller that the gate of its handshake returned, and that gate accepted; a key is redeemed
once; the key that a handler starts with was left by its own gate, whatever the client sent; and a handler that finds no
entry does not run its target. -/
structure Bound (s : HandoffState η P) : Prop where
  own : ∀ h found, s.pc h = .running found → s.returned h = some found ∧ s.accepted h = true
  once : s.redeemed.Nodup
  unnamed : ∀ h request, s.pc h = .queued request →
    request.headers = client h ∧ ∀ key, request.handoff = some key → s.left h = some key
  live : ∀ h request s', s.pc h = .queued request → s.step client (.start h) = some s' →
    (s.entry request.handoff = none → s'.pc h = .refused) ∧
      ∀ key expires found, s.entry request.handoff = some (key, expires, found) →
        s'.pc h = .running found ∧ s'.redeemed = s.redeemed ++ [key]

instance [Fintype η] [DecidableEq P] (s : HandoffState η P) (a : HandoffAction η P) : Decidable (s.Contract a) := by
  cases a with
  | callNext h kept reply =>
    simp only [Contract]
    split <;> infer_instance
  | handOn h reply =>
    simp only [Contract]
    split <;> infer_instance
  | answer | raise | leave =>
    simp only [Contract]
    infer_instance
  | _ => exact .isTrue trivial

/-- The verdict of `make_gate` on `None` or `True`. -/
def acceptance : GateReply := ⟨101, .empty⟩

/-- Two handshakes whose gates, hand-offs and handlers take turns. -/
def twoSockets : List (HandoffAction (Fin 2) String) :=
  [.enqueueGate 0 true, .enqueueGate 1 true, .identify 0 (some "ann"), .identify 1 none, .callNext 1 none acceptance,
    .callNext 0 (some "ann") acceptance, .look 0, .look 1, .leave 1 "b", .leave 0 "a", .handOn 0 (acceptance.hand "a"),
    .handOn 1 (acceptance.hand "b"), .decide 1, .decide 0, .enqueueHandler 0 true, .enqueueHandler 1 true, .start 0,
    .start 1]

/-- The second client names the key of the first. -/
def spoofing : Fin 2 → List (String × String)
  | 0 => []
  | 1 => [("x-oxbrook-handoff", "a")]

end HandoffState

end Oxbrook
