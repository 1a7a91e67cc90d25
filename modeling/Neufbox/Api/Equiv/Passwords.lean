import Neufbox.Api.Auth
import Neufbox.Libewf.Equiv.Credentials

/-!
# The password checks of the web site and of the API

The web site (`ewf_smith_login_passwd`) and the API (the password branch of `auth.checkToken`) check
the hash of a login and a password separately.  Both ask for 128 characters.  The web site asks for
them after it has copied the form value to a buffer of 129 bytes, and so takes the beginning of a
longer value (`passwd_checks_agree_iff`).
-/

namespace Neufbox.Api

open Libewf (Crypto Credentials digests ewfSmithLoginPasswd expectedHash hashForm)
open Libnbu

variable {crypto : Crypto} {sid hash login password : String}

/-- The API, when it reads its configuration and no hash fails. -/
theorem checkPasswd_hash_iff {env : CheckTokenEnv} (hlogin : env.webLogin = some login)
    (hpassword : env.webPassword = some password) (hsha : env.loginShaOk = true)
    (hhmac : env.loginHmacOk = true) (hhmac' : env.passwordHmacOk = true) :
    (∃ proof, checkPasswd crypto sid hash env = .ok proof) ↔
      hash = expectedHash crypto sid login password := by
  unfold checkPasswd
  simp only [hlogin, hpassword, hsha, hhmac, hhmac', Bool.true_eq_false, if_false]
  by_cases hlong : hash.length = 128
  · rw [if_neg (not_not.mpr hlong), expectedHash,
      ← nbuStringCopy_halves hlong (crypto.length_hmac _ _)]
    split_ifs with h₁ h₂
    · simp [h₁]
    · simp [h₂]
    · simp [not_not.mp h₁, not_not.mp h₂]
  · rw [if_pos hlong]
    refine iff_of_false (by simp) fun heq => hlong ?_
    rw [heq, Libewf.length_expectedHash]

/-- **The two checks.**  For every session, every stored login and password that both sides read,
and every hash that is not empty: the web site and the API accept the same, if and only if the hash
has at most 128 characters, or its first 128 are not those that are expected. -/
theorem passwd_checks_agree_iff (crypto : Crypto) (sid hash login password : String)
    (c : Credentials) (env : CheckTokenEnv) (hhash : c.hash = some hash) (hne : hash ≠ "")
    (hok : c.ok = .all) (hlogin : c.webLogin = some login)
    (hpassword : c.webPassword = some password) (hlogin' : env.webLogin = some login)
    (hpassword' : env.webPassword = some password)
    (hsha : env.loginShaOk = true) (hhmac : env.loginHmacOk = true)
    (hhmac' : env.passwordHmacOk = true) :
    (ewfSmithLoginPasswd crypto sid c = .success ↔
      ∃ proof, checkPasswd crypto sid hash env = .ok proof) ↔
    hash.length ≤ 128 ∨ nbuStringCopy 129 hash ≠ expectedHash crypto sid login password := by
  rw [Libewf.loginPasswd_hash_iff hhash hne hok hlogin hpassword,
    checkPasswd_hash_iff hlogin' hpassword' hsha hhmac hhmac']
  have hlength := Libewf.length_expectedHash crypto sid login password
  constructor
  · intro hagree
    rcases Nat.lt_or_ge 128 hash.length with hlong | hshort
    · -- such a hash is not accepted by the API
      refine .inr fun hcopy => ?_
      rw [hagree.mp hcopy, hlength] at hlong
      exact absurd hlong (by decide)
    · exact .inl hshort
  · intro hcond
    have hcopy : hash.length ≤ 128 → nbuStringCopy 129 hash = hash :=
      fun hshort => nbuStringCopy_of_lt (by omega)
    constructor
    · intro heq
      rcases hcond with hshort | hdiffer
      · rw [← hcopy hshort, heq]
      · exact absurd heq hdiffer
    · intro heq
      rw [hcopy (by rw [heq, hlength]), heq]

/-- What `auth.checkToken` meets when every read and every hash succeeds. -/
def smoothEnv (login password hash : String) : CheckTokenEnv :=
  ⟨1000, some "passwd", 1000, some hash, none, some login, true, true, some password, true,
    some 1000⟩

/-- The login of `admin` with the password `secret`. -/
theorem passwd_checks_agree_iff_admin :
    let sid := String.ofList (List.replicate 40 '0')
    let password := "2bb80d537b1da3e38bd30361aa855686bde0eacd7162fef6a25fe97bf527a25b"
    let hash := expectedHash digests sid "admin" password
    ewfSmithLoginPasswd digests sid (hashForm "admin" password hash) = .success ∧
      ∃ proof, checkPasswd digests sid hash (smoothEnv "admin" password hash) = .ok proof := by
  intro sid password hash
  have hlength : hash.length = 128 := Libewf.length_expectedHash digests sid "admin" password
  have hne : hash ≠ "" := String.length_eq_zero_iff.not.mp (by rw [hlength]; decide)
  have hweb := Libewf.loginPasswd_hashForm digests sid "admin" password
  have hagree := (passwd_checks_agree_iff digests sid hash "admin" password
    (hashForm "admin" password hash) (smoothEnv "admin" password hash) rfl hne
    rfl rfl rfl rfl rfl rfl rfl rfl).mpr (.inl (by rw [hlength]))
  exact ⟨hweb, hagree.mp hweb⟩

/-- The same hash with one more character: the web site lets the user in, and the API does not. -/
theorem passwd_checks_differ :
    let sid := String.ofList (List.replicate 40 '0')
    let password := "2bb80d537b1da3e38bd30361aa855686bde0eacd7162fef6a25fe97bf527a25b"
    let hash := expectedHash digests sid "admin" password ++ "0"
    ewfSmithLoginPasswd digests sid (hashForm "admin" password hash) = .success ∧
      ∀ proof, checkPasswd digests sid hash (smoothEnv "admin" password hash) ≠ .ok proof := by
  intro sid password hash
  have hlength : hash.length = 129 := by
    rw [String.length_append, Libewf.length_expectedHash]
    rfl
  have hne : hash ≠ "" := String.length_eq_zero_iff.not.mp (by rw [hlength]; decide)
  constructor
  · exact (Libewf.loginPasswd_hash_iff rfl hne rfl rfl rfl).mpr
      (nbuStringCopy_append (Libewf.length_expectedHash digests sid "admin" password) "0")
  · intro proof
    rw [checkPasswd, if_pos (by rw [hlength]; decide)]
    exact nofun

end Neufbox.Api
