import Yeetbox.Access.Authn
import Yeetbox.Library.Split

/-!
# PLAIN assertions

A PLAIN assertion is an authorization identity, a user name and a password, with a NUL between
each two of them. `attempt_authn` splits the assertion at its NULs and looks at the pieces. It
accepts exactly the assertions of the grammar whose name and password are in the database, and it
ends with an error exactly when the name or the password of such an assertion is no text
(`plain_accepts_exactly`).
-/

set_option autoImplicit false

namespace Yeetbox.Access

open Library Storage

/-- An assertion of at most 1000 bytes, made of three parts without a NUL, of which the first is
empty or the same as the second. -/
structure PlainParts (assertion authzid authcid passwd : Bytes) : Prop where
  short : assertion.length ≤ 1000
  free : 0 ∉ authzid ∧ 0 ∉ authcid ∧ 0 ∉ passwd
  joined : assertion = authzid ++ [0] ++ authcid ++ [0] ++ passwd
  identity : authzid = [] ∨ authzid = authcid

/-- The name and the password of the assertion are texts, and the database maps one to the other. -/
def PlainAccepts (auth : SimpleAuth) (assertion : Bytes) : Prop :=
  ∃ authzid authcid passwd, PlainParts assertion authzid authcid passwd ∧
    ∃ user password, ofUtf8 authcid = some user ∧ ofUtf8 passwd = some password ∧
      auth.db.lookup user = some password

/-- The name or the password of the assertion is no text. -/
def PlainUnreadable (assertion : Bytes) : Prop :=
  ∃ authzid authcid passwd, PlainParts assertion authzid authcid passwd ∧
    (ofUtf8 authcid = none ∨ ofUtf8 passwd = none)

/-- The parts of an assertion are determined. -/
theorem PlainParts.unique {assertion authzid authcid passwd authzid' authcid' passwd' : Bytes}
    (parts : PlainParts assertion authzid authcid passwd)
    (parts' : PlainParts assertion authzid' authcid' passwd') :
    authzid = authzid' ∧ authcid = authcid' ∧ passwd = passwd' := by
  have split := splitOn_eq_three_iff.mpr
    ⟨parts.free.1, parts.free.2.1, parts.free.2.2, parts.joined⟩
  have split' := splitOn_eq_three_iff.mpr
    ⟨parts'.free.1, parts'.free.2.1, parts'.free.2.2, parts'.joined⟩
  simpa using split.symm.trans split'

section Parts

variable {assertion authzid authcid passwd : Bytes}

/-- The database decides about the parts of an assertion that has some. -/
theorem PlainParts.accepts_iff {auth : SimpleAuth}
    (parts : PlainParts assertion authzid authcid passwd) :
    PlainAccepts auth assertion ↔
      ∃ user password, ofUtf8 authcid = some user ∧ ofUtf8 passwd = some password ∧
        auth.db.lookup user = some password := by
  constructor
  · rintro ⟨authzid', authcid', passwd', parts', accepted⟩
    obtain ⟨-, rfl, rfl⟩ := parts.unique parts'
    exact accepted
  · exact fun accepted => ⟨authzid, authcid, passwd, parts, accepted⟩

/-- An assertion that has parts is unreadable when one of the last two is no text. -/
theorem PlainParts.unreadable_iff (parts : PlainParts assertion authzid authcid passwd) :
    PlainUnreadable assertion ↔ ofUtf8 authcid = none ∨ ofUtf8 passwd = none := by
  constructor
  · rintro ⟨authzid', authcid', passwd', parts', unreadable⟩
    obtain ⟨-, rfl, rfl⟩ := parts.unique parts'
    exact unreadable
  · exact fun unreadable => ⟨authzid, authcid, passwd, parts, unreadable⟩

end Parts

/-- What is left of an attempt after the pieces were found. -/
def checkPasswd (auth : SimpleAuth) (authcid passwd : Bytes) :
    Except AnyhowError AuthenticateResult := do
  let authcid ← fromUtf8 authcid
  let passwd ← fromUtf8 passwd
  let success := (auth.db.lookup authcid).any fun pw => pw == passwd
  .ok (if success then .accept else .reject)

/-- An attempt looks at the parts of an assertion, and rejects what has none. -/
theorem attemptAuthn_cases (auth : SimpleAuth) (assertion : Bytes) :
    (∃ authzid authcid passwd, PlainParts assertion authzid authcid passwd ∧
      auth.attemptAuthn ⟨"PLAIN", assertion⟩ = checkPasswd auth authcid passwd) ∨
    ((∀ authzid authcid passwd, ¬ PlainParts assertion authzid authcid passwd) ∧
      auth.attemptAuthn ⟨"PLAIN", assertion⟩ = .ok .reject) := by
  have notAnonymous : ¬ ("PLAIN" = "ANONYMOUS") := by decide
  have plain : ¬ ("PLAIN" ≠ "PLAIN") := by decide
  rw [SimpleAuth.attemptAuthn, if_neg notAnonymous, if_neg plain]
  dsimp only
  by_cases long : assertion.length > 1000
  · rw [if_pos long]
    exact .inr ⟨fun _ _ _ parts => long.not_ge parts.short, rfl⟩
  rw [if_neg long]
  split
  · rename_i authzid authcid passwd pieces
    obtain ⟨noAuthzid, noAuthcid, noPasswd, joined⟩ := splitOn_eq_three_iff.mp pieces
    by_cases differs : authzid.length > 0 ∧ authzid ≠ authcid
    · rw [if_pos differs]
      refine .inr ⟨fun authzid' authcid' passwd' parts => ?_, rfl⟩
      have others := splitOn_eq_three_iff.mpr
        ⟨parts.free.1, parts.free.2.1, parts.free.2.2, parts.joined⟩
      rw [pieces] at others
      cases others
      rcases parts.identity with empty | same
      · rw [empty] at differs
        exact absurd differs.1 (Nat.lt_irrefl 0)
      · exact differs.2 same
    · rw [if_neg differs]
      refine .inl ⟨authzid, authcid, passwd, ⟨Nat.not_lt.mp long, ⟨noAuthzid, noAuthcid, noPasswd⟩,
        joined, ?_⟩, rfl⟩
      by_cases empty : authzid = []
      · exact .inl empty
      · refine .inr ?_
        by_contra other
        exact differs ⟨List.length_pos_iff.mpr empty, other⟩
  · rename_i others
    refine .inr ⟨fun authzid authcid passwd parts => ?_, rfl⟩
    exact others authzid authcid passwd (splitOn_eq_three_iff.mpr
      ⟨parts.free.1, parts.free.2.1, parts.free.2.2, parts.joined⟩)

/-- The check of a name and a password accepts what the database maps, fails on what is no text,
and rejects the rest. -/
theorem checkPasswd_eq (auth : SimpleAuth) (authcid passwd : Bytes) :
    checkPasswd auth authcid passwd =
      match ofUtf8 authcid, ofUtf8 passwd with
      | some user, some password =>
          .ok (if auth.db.lookup user = some password then .accept else .reject)
      | _, _ => .error .utf8Error := by
  rw [checkPasswd, fromUtf8, fromUtf8]
  rcases ofUtf8 authcid with _ | user
  · rfl
  rcases ofUtf8 passwd with _ | password
  · rfl
  have decision : (auth.db.lookup user).any (fun pw => pw == password) =
      decide (auth.db.lookup user = some password) := by
    rcases auth.db.lookup user with _ | found
    · rfl
    · rw [Option.any_some, beq_eq_decide]
      simp only [Option.some_inj]
  change Except.ok (if (auth.db.lookup user).any (fun pw => pw == password) then
    AuthenticateResult.accept else .reject) = _
  rw [decision]
  simp only [decide_eq_true_eq]

/-- **A PLAIN attempt accepts exactly the assertions of the grammar whose name and password are in
the database.** It ends with an error exactly when the name or the password is no text, and rejects
what is left. -/
theorem plain_accepts_exactly (auth : SimpleAuth) (assertion : Bytes) :
    (auth.attemptAuthn ⟨"PLAIN", assertion⟩ = .ok .accept ↔ PlainAccepts auth assertion) ∧
    (auth.attemptAuthn ⟨"PLAIN", assertion⟩ = .error .utf8Error ↔ PlainUnreadable assertion) ∧
    (auth.attemptAuthn ⟨"PLAIN", assertion⟩ = .ok .reject ↔
      ¬ PlainAccepts auth assertion ∧ ¬ PlainUnreadable assertion) := by
  rcases attemptAuthn_cases auth assertion with ⟨authzid, authcid, passwd, parts, attempt⟩ |
    ⟨noParts, attempt⟩
  · rw [attempt, checkPasswd_eq, parts.accepts_iff, parts.unreadable_iff]
    rcases ofUtf8 authcid with _ | user
    · simp
    rcases ofUtf8 passwd with _ | password
    · simp
    by_cases mapped : auth.db.lookup user = some password
    · simp [mapped, AuthenticateResult.accept, AuthenticateResult.reject]
    · simp [mapped, AuthenticateResult.accept, AuthenticateResult.reject]
  · have refused : ¬ PlainAccepts auth assertion :=
      fun ⟨authzid, authcid, passwd, parts, _⟩ => noParts authzid authcid passwd parts
    have readable : ¬ PlainUnreadable assertion :=
      fun ⟨authzid, authcid, passwd, parts, _⟩ => noParts authzid authcid passwd parts
    rw [attempt]
    simp [refused, readable, AuthenticateResult.accept, AuthenticateResult.reject]

end Yeetbox.Access
