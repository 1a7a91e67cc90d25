import Neufbox.Libewf.Smith

/-!
# The hashes of a login

`ewf_smith_full_hash` reports a failed SHA-256 and not a failed HMAC, and then the buffer keeps what
it held.  `loginPasswd_eq_success_iff_held` says when a login with a password succeeds for every
pattern of failures, in terms of what the three buffers hold when they are compared (`heldLogin`,
`heldPassword`, `heldBuf`).

* `loginPasswd_computed_iff`: a login succeeds only with hashes that were computed, except when an
  HMAC fails unreported and what the buffers held before agrees.
* `cleartext_iff_challenge`: with a hash that does not fail, the login and the password in
  cleartext are as good as their hash.
-/

namespace Neufbox.Libewf

open Libnbu

/-! ### Values in force -/

theorem configValue_webAuth (r : Option String) : configValue "web_auth" r = r.getD "off" := by
  cases r <;> rfl

theorem configValue_webLogin (r : Option String) : configValue "web_login" r = r.getD "admin" := by
  cases r <;> rfl

theorem configValue_webPassword (r : Option String) : configValue "web_password" r = r.getD "" := by
  cases r <;> rfl

/-! ### Passwords -/

/-- The credentials a user submitted fit the given `web_login` and `web_password`: the hash of the
form is the HMAC of the login's SHA-256 followed by the HMAC of the password, or the form has no
hash, and its login and password have these HMACs. -/
def Credentials.Match (crypto : Crypto) (sid : String) (c : Credentials)
    (webLogin webPassword : String) : Prop :=
  if c.formHash.length = 0 then
    ∃ login password, c.login = some login ∧ c.password = some password ∧
      crypto.hmac sid (crypto.sha256 (nbuStringCopy 256 login))
        = crypto.hmac sid (crypto.sha256 webLogin) ∧
      crypto.hmac sid (crypto.sha256 (nbuStringCopy 256 password)) = crypto.hmac sid webPassword
  else
    c.formHash = crypto.hmac sid (crypto.sha256 webLogin) ++ crypto.hmac sid webPassword

theorem nbuStringCopy_hmac (crypto : Crypto) (key msg : String) {size : ℕ} (h : 65 ≤ size) :
    nbuStringCopy size (crypto.hmac key msg) = crypto.hmac key msg :=
  nbuStringCopy_of_lt (by rw [crypto.length_hmac]; omega)

theorem hmac_append_inj (crypto : Crypto) {key msg₁ msg₂ msg₁' msg₂' : String} :
    crypto.hmac key msg₁ ++ crypto.hmac key msg₂ = crypto.hmac key msg₁' ++ crypto.hmac key msg₂' ↔
      crypto.hmac key msg₁ = crypto.hmac key msg₁' ∧
        crypto.hmac key msg₂ = crypto.hmac key msg₂' := by
  have hlength : (crypto.hmac key msg₁).toList.length = (crypto.hmac key msg₁').toList.length := by
    rw [String.length_toList, String.length_toList, crypto.length_hmac, crypto.length_hmac]
  constructor
  · intro h
    rw [← String.toList_inj, String.toList_append, String.toList_append] at h
    obtain ⟨h₁, h₂⟩ := List.append_inj h hlength
    exact ⟨String.toList_injective h₁, String.toList_injective h₂⟩
  · rintro ⟨h₁, h₂⟩
    rw [h₁, h₂]

/-! ### What is compared -/

section Held

variable (crypto : Crypto) (sid : String) (c : Credentials)

/-- What `login` holds when it is compared. -/
def Credentials.heldLogin : String :=
  if c.formHash.length = 0 then
    if c.ok.loginHmac then
      crypto.hmac sid (crypto.sha256 (nbuStringCopy 256 (c.login.getD "")))
    else c.login₀
  else nbuStringCopy 65 c.formHash

/-- What `password` holds when it is compared. -/
def Credentials.heldPassword : String :=
  if c.formHash.length = 0 then
    if c.ok.passwordHmac then
      crypto.hmac sid (crypto.sha256 (nbuStringCopy 256 (c.password.getD "")))
    else c.password₀
  else nbuStringCopy 65 (String.ofList (c.formHash.toList.drop loginHashLen))

/-- What `buf` holds when the login is compared with it.  Without a hash in the form, it held the
password of the form before. -/
def Credentials.heldBuf : String :=
  if c.ok.cfgLoginHmac then crypto.hmac sid (crypto.sha256 (c.webLogin.getD "admin"))
  else if c.formHash.length = 0 then nbuStringCopy 256 (c.password.getD "")
  else c.buf₀

/-- The form has what is asked for, and no call whose failure is reported fails. -/
def Credentials.Complete : Prop :=
  (c.formHash.length = 0 ∧ c.login.isSome ∧ c.password.isSome ∧ c.ok.loginSha ∧ c.ok.passwordSha ∨
    c.formHash.length = loginHashLen + passwHashLen) ∧ c.ok.cfgLoginSha ∧ c.ok.cfgPasswordHmac

/-- An HMAC fails in `ewf_smith_full_hash`, which does not report it. -/
def Credentials.Unreported : Prop :=
  c.ok.cfgLoginHmac = false ∨
    c.formHash.length = 0 ∧ (c.ok.loginHmac = false ∨ c.ok.passwordHmac = false)

end Held

variable {crypto : Crypto} {sid : String} {c : Credentials}

/-- The comparison. -/
theorem compareHashes_eq_success_iff_held (login password buf : String) :
    compareHashes crypto sid c login password buf = .success ↔
      c.ok.cfgLoginSha = true ∧
      login = (if c.ok.cfgLoginHmac then crypto.hmac sid (crypto.sha256 (c.webLogin.getD "admin"))
        else buf) ∧
      c.ok.cfgPasswordHmac = true ∧ password = crypto.hmac sid (c.webPassword.getD "") := by
  have hcopy (msg : String) := nbuStringCopy_hmac crypto sid msg (show 65 ≤ 256 by decide)
  rw [← configValue_webLogin, ← configValue_webPassword]
  unfold compareHashes ewfSmithFullHash ewfSmithHmac
  cases c.ok.cfgLoginSha
  · simp
  · cases c.ok.cfgLoginHmac <;> cases c.ok.cfgPasswordHmac <;> simp only [hcopy, if_true] <;>
      split_ifs <;> simp_all

/-- A form without a hash that is complete. -/
theorem submittedHashes_cleartext_held (hlen : c.formHash.length = 0) {login password : String}
    (hlogin : c.login = some login) (hpassword : c.password = some password)
    (hsha : c.ok.loginSha = true) (hsha' : c.ok.passwordSha = true) :
    submittedHashes crypto sid c =
      .ok (c.heldLogin crypto sid, c.heldPassword crypto sid, nbuStringCopy 256 password) := by
  have hcopy (msg : String) := nbuStringCopy_hmac crypto sid msg (Nat.le_refl 65)
  rw [submittedHashes, Credentials.heldLogin, Credentials.heldPassword, if_pos hlen, if_pos hlen,
    if_pos hlen, hlogin, hpassword]
  simp only [ewfSmithFullHash, hsha, hsha', if_true, ewfSmithHmac, Option.getD_some]
  cases c.ok.loginHmac <;> cases c.ok.passwordHmac <;> simp [hcopy]

/-- A form without a hash that is not complete. -/
theorem submittedHashes_cleartext_incomplete (crypto : Crypto) (sid : String)
    (hlen : c.formHash.length = 0)
    (h : ¬ (c.login.isSome ∧ c.password.isSome ∧ c.ok.loginSha ∧ c.ok.passwordSha)) :
    ∃ ret, submittedHashes crypto sid c = .error ret ∧ ret ≠ .success := by
  rw [submittedHashes, if_pos hlen]
  rcases hlogin : c.login with - | login
  · exact ⟨_, rfl, by decide⟩
  · cases hsha : c.ok.loginSha with
    | false => exact ⟨.error, rfl, by decide⟩
    | true =>
      rcases hpassword : c.password with - | password
      · exact ⟨.invalidArgs, rfl, by decide⟩
      · cases hsha' : c.ok.passwordSha with
        | false => exact ⟨.error, rfl, by decide⟩
        | true => exact absurd ⟨by rw [hlogin]; rfl, by rw [hpassword]; rfl, hsha, hsha'⟩ h

/-- The comparison, when `buf` held `buf` before it. -/
theorem compareHashes_held {login password buf : String}
    (hbuf : c.heldBuf crypto sid =
      if c.ok.cfgLoginHmac then crypto.hmac sid (crypto.sha256 (c.webLogin.getD "admin")) else buf)
    (hcomplete : c.Complete ↔ c.ok.cfgLoginSha ∧ c.ok.cfgPasswordHmac) :
    compareHashes crypto sid c login password buf = .success ↔
      c.Complete ∧ login = c.heldBuf crypto sid ∧
        password = crypto.hmac sid (c.webPassword.getD "") := by
  rw [compareHashes_eq_success_iff_held, hcomplete, hbuf]
  tauto

/-- **The login with a password**, for every pattern of failures. -/
theorem loginPasswd_eq_success_iff_held :
    ewfSmithLoginPasswd crypto sid c = .success ↔
      c.Complete ∧ c.heldLogin crypto sid = c.heldBuf crypto sid ∧
        c.heldPassword crypto sid = crypto.hmac sid (c.webPassword.getD "") := by
  unfold ewfSmithLoginPasswd
  by_cases hlen : c.formHash.length = 0
  · have hlong : c.formHash.length ≠ loginHashLen + passwHashLen := by rw [hlen]; decide
    rw [if_neg fun h => h.1 hlen]
    by_cases hform : c.login.isSome ∧ c.password.isSome ∧ c.ok.loginSha ∧ c.ok.passwordSha
    · have hcomplete : c.Complete ↔ c.ok.cfgLoginSha ∧ c.ok.cfgPasswordHmac :=
        and_iff_right (.inl ⟨hlen, hform⟩)
      obtain ⟨hlogin, hpassword, hsha, hsha'⟩ := hform
      obtain ⟨login, hlogin⟩ := Option.isSome_iff_exists.mp hlogin
      obtain ⟨password, hpassword⟩ := Option.isSome_iff_exists.mp hpassword
      rw [submittedHashes_cleartext_held hlen hlogin hpassword hsha hsha']
      refine compareHashes_held ?_ hcomplete
      rw [Credentials.heldBuf, if_pos hlen, hpassword, Option.getD_some]
    · obtain ⟨ret, hret, hne⟩ := submittedHashes_cleartext_incomplete crypto sid hlen hform
      rw [hret]
      refine iff_of_false hne ?_
      rintro ⟨⟨hcleartext | hhash, -⟩, -⟩
      · exact hform hcleartext.2
      · exact hlong hhash
  · by_cases hlong : c.formHash.length = loginHashLen + passwHashLen
    · rw [if_neg fun h => h.2 hlong, submittedHashes, Credentials.heldLogin,
        Credentials.heldPassword, if_neg hlen, if_neg hlen, if_neg hlen]
      refine compareHashes_held ?_ (and_iff_right (.inr hlong))
      rw [Credentials.heldBuf, if_neg hlen]
    · rw [if_pos ⟨hlen, hlong⟩]
      refine iff_of_false (by decide) ?_
      rintro ⟨⟨hcleartext | hhash, -⟩, -⟩
      · exact hlen hcleartext.1
      · exact hlong hhash

/-! ### Hashes that were computed -/

/-- Every hash that is compared was computed. -/
def Credentials.Computed (c : Credentials) : Prop :=
  c.ok.cfgLoginSha ∧ c.ok.cfgLoginHmac ∧ c.ok.cfgPasswordHmac ∧
    (c.formHash.length = 0 →
      c.ok.loginSha ∧ c.ok.loginHmac ∧ c.ok.passwordSha ∧ c.ok.passwordHmac)

theorem Credentials.Computed.reported (h : c.Computed) : ¬ c.Unreported := by
  obtain ⟨-, hcfg, -, hform⟩ := h
  rintro (hno | ⟨hlen, hno | hno⟩)
  · exact absurd (hcfg.symm.trans hno) (by decide)
  · exact absurd ((hform hlen).2.1.symm.trans hno) (by decide)
  · exact absurd ((hform hlen).2.2.2.symm.trans hno) (by decide)

/-- Where no failure goes unreported, the buffers hold what was computed. -/
theorem held_iff_match (hreported : ¬ c.Unreported) :
    (c.Complete ∧ c.heldLogin crypto sid = c.heldBuf crypto sid ∧
        c.heldPassword crypto sid = crypto.hmac sid (c.webPassword.getD "")) ↔
      c.Computed ∧ c.Match crypto sid (c.webLogin.getD "admin") (c.webPassword.getD "") := by
  simp only [Credentials.Unreported, not_or, not_and, Bool.not_eq_false] at hreported
  obtain ⟨hcfg, hform⟩ := hreported
  unfold Credentials.Complete Credentials.Computed Credentials.Match Credentials.heldLogin
    Credentials.heldPassword Credentials.heldBuf
  by_cases hlen : c.formHash.length = 0
  · obtain ⟨hlogin, hpassword⟩ := hform hlen
    have hshort : ¬ 0 = loginHashLen + passwHashLen := by decide
    simp only [hlen, hshort, hcfg, hlogin, hpassword, if_true, or_false, true_and]
    rcases c.login with - | login <;> rcases c.password with - | password <;> simp
    tauto
  · simp only [hlen, hcfg, if_true, if_false, false_and, false_or, true_and, false_imp_iff,
      and_true]
    constructor
    · rintro ⟨⟨hlong, hsha, hhmac⟩, hheld⟩
      exact ⟨⟨hsha, hhmac⟩, (nbuStringCopy_halves hlong (crypto.length_hmac _ _)).mp hheld⟩
    · rintro ⟨⟨hsha, hhmac⟩, hhash⟩
      have hlong : c.formHash.length = 2 * 64 := by
        rw [hhash, String.length_append, crypto.length_hmac, crypto.length_hmac]
      exact ⟨⟨hlong, hsha, hhmac⟩,
        (nbuStringCopy_halves hlong (crypto.length_hmac _ _)).mpr hhash⟩

/-- The login with a password, when no hash fails: it succeeds exactly with credentials that match
the values in force. -/
theorem loginPasswd_eq_success_iff (hok : c.ok = .all) :
    ewfSmithLoginPasswd crypto sid c = .success ↔
      c.Match crypto sid (c.webLogin.getD "admin") (c.webPassword.getD "") := by
  have hcomputed : c.Computed := by
    unfold Credentials.Computed
    rw [hok]
    exact ⟨rfl, rfl, rfl, fun _ => ⟨rfl, rfl, rfl, rfl⟩⟩
  rw [loginPasswd_eq_success_iff_held, held_iff_match hcomputed.reported]
  exact and_iff_right hcomputed

/-- What a hash has to be: the HMAC of the login's SHA-256, and the HMAC of the password, which is
stored as its SHA-256. -/
def expectedHash (crypto : Crypto) (sid login password : String) : String :=
  crypto.hmac sid (crypto.sha256 login) ++ crypto.hmac sid password

theorem length_expectedHash (crypto : Crypto) (sid login password : String) :
    (expectedHash crypto sid login password).length = 128 := by
  rw [expectedHash, String.length_append, crypto.length_hmac, crypto.length_hmac]

/-- A form with a hash, when the configuration is read and no hash fails. -/
theorem loginPasswd_hash_iff {hash login password : String} (hhash : c.hash = some hash)
    (hne : hash ≠ "") (hok : c.ok = .all) (hlogin : c.webLogin = some login)
    (hpassword : c.webPassword = some password) :
    ewfSmithLoginPasswd crypto sid c = .success ↔
      nbuStringCopy 129 hash = expectedHash crypto sid login password := by
  have hform : c.formHash = nbuStringCopy 129 hash := by
    rw [Credentials.formHash, hhash]
    rfl
  have hlen : (nbuStringCopy 129 hash).length ≠ 0 := by
    rw [nbuStringCopy, String.length_ofList, List.length_take, String.length_toList]
    have : hash.length ≠ 0 := fun h => hne (String.length_eq_zero_iff.mp h)
    omega
  rw [loginPasswd_eq_success_iff hok, hlogin, hpassword, Credentials.Match, hform, if_neg hlen]
  rfl

/-- The form of a login with a hash. -/
def hashForm (login password hash : String) : Credentials :=
  ⟨some hash, none, none, some login, some password, .all, "", "", ""⟩

theorem loginPasswd_hashForm (crypto : Crypto) (sid login password : String) :
    ewfSmithLoginPasswd crypto sid
      (hashForm login password (expectedHash crypto sid login password)) = .success := by
  have hlength := length_expectedHash crypto sid login password
  have hne : expectedHash crypto sid login password ≠ "" :=
    String.length_eq_zero_iff.not.mp (by rw [hlength]; decide)
  exact (loginPasswd_hash_iff rfl hne rfl rfl rfl).mpr
    (nbuStringCopy_of_lt (by rw [hlength]; decide))

/-- **Failing hashes.**  A login with a password succeeds only if every hash that is compared was
computed and the credentials match the values in force, unless an HMAC fails in
`ewf_smith_full_hash`, no other call does, and what the buffers held before agrees with what it is
compared with. -/
theorem loginPasswd_computed_iff (crypto : Crypto) (sid : String) (c : Credentials) :
    (ewfSmithLoginPasswd crypto sid c = .success →
      c.Computed ∧ c.Match crypto sid (c.webLogin.getD "admin") (c.webPassword.getD "")) ↔
    ¬ (c.Unreported ∧ c.Complete ∧ c.heldLogin crypto sid = c.heldBuf crypto sid ∧
      c.heldPassword crypto sid = crypto.hmac sid (c.webPassword.getD "")) := by
  rw [loginPasswd_eq_success_iff_held]
  constructor
  · rintro hcomputed ⟨hunreported, hheld⟩
    exact (hcomputed hheld).1.reported hunreported
  · intro hstale hheld
    exact (held_iff_match fun hunreported => hstale ⟨hunreported, hheld⟩).mp hheld

/-- The SHA-256 of `admin` and of `secret`, and their HMACs under the id of forty zeros; other
values are not needed here. -/
def digests : Crypto where
  sha256 msg :=
    if msg = "admin" then "8c6976e5b5410415bde908bd4dee15dfb167a9c873fc4bb8a81f6f2ab448a918"
    else "2bb80d537b1da3e38bd30361aa855686bde0eacd7162fef6a25fe97bf527a25b"
  hmac _ msg :=
    if msg = "8c6976e5b5410415bde908bd4dee15dfb167a9c873fc4bb8a81f6f2ab448a918" then
      "5dc120c230d303af43e8ad36c26c56a3eb44bfbb6d3983d2d9e7976e74d82582"
    else "d2d0e87b64d67bc8dfd004e7c6c5fa65c5f1442d8c0219c938178a790aea5d2d"
  length_sha256 := by intro msg; split_ifs <;> decide +kernel
  length_hmac := by intro key msg; split_ifs <;> decide +kernel

/-- A form whose hash has a wrong first half, which happens to be what `buf` held, and the HMAC of
the login fails: the login succeeds. -/
theorem loginPasswd_accepts_stale_login :
    let sid := String.ofList (List.replicate 40 '0')
    let stale := String.ofList (List.replicate 64 'x')
    let password := "2bb80d537b1da3e38bd30361aa855686bde0eacd7162fef6a25fe97bf527a25b"
    let c : Credentials := ⟨some (stale ++ digests.hmac sid password), none, none, some "admin",
      some password, { CryptoOk.all with cfgLoginHmac := false }, stale, "", ""⟩
    ewfSmithLoginPasswd digests sid c = .success ∧ ¬ c.Computed ∧
      ¬ c.Match digests sid "admin" password := by
  intro sid stale password c
  have hstale : stale.length = 64 := by
    rw [String.length_ofList, List.length_replicate]
  have hlong : (stale ++ digests.hmac sid password).length = 2 * 64 := by
    rw [String.length_append, hstale, digests.length_hmac]
  have hform : c.formHash = stale ++ digests.hmac sid password :=
    nbuStringCopy_of_lt (by rw [hlong]; decide)
  have hlen : c.formHash.length ≠ 0 := by
    rw [hform, hlong]
    decide
  refine ⟨?_, ?_, ?_⟩
  · rw [loginPasswd_eq_success_iff_held, Credentials.heldLogin, Credentials.heldPassword,
      Credentials.heldBuf, if_neg hlen, if_neg hlen, if_neg hlen, hform]
    exact ⟨⟨.inr (by rw [hform]; exact hlong), rfl, rfl⟩,
      (nbuStringCopy_halves hlong hstale).mpr rfl⟩
  · rintro ⟨-, hcfg, -⟩
    exact nomatch hcfg
  · rw [Credentials.Match, if_neg hlen, hform, ← String.toList_inj, String.toList_append,
      String.toList_append]
    intro hmatch
    have hfirst := List.append_inj_left hmatch
      (by rw [String.length_toList, String.length_toList, hstale, digests.length_hmac])
    exact absurd (congrArg List.head? hfirst) (by decide)

/-! ### Cleartext and challenge -/

/-- **Cleartext and challenge.**  When no hash fails, a form with a login and a password of at most
255 characters, and no hash, succeeds if and only if the form with the HMACs of their SHA-256
does. -/
theorem cleartext_iff_challenge (crypto : Crypto) (sid : String) (c c' : Credentials)
    (login password : String) (hok : c.ok = .all) (hok' : c'.ok = .all)
    (hlogin : c.login = some login) (hpassword : c.password = some password)
    (hnohash : c.formHash = "") (hloginLen : login.length ≤ 255)
    (hpasswordLen : password.length ≤ 255)
    (hhash : c'.hash = some (crypto.hmac sid (crypto.sha256 login) ++
      crypto.hmac sid (crypto.sha256 password)))
    (hwebLogin : c'.webLogin = c.webLogin) (hwebPassword : c'.webPassword = c.webPassword) :
    ewfSmithLoginPasswd crypto sid c = .success ↔ ewfSmithLoginPasswd crypto sid c' = .success := by
  have hlong : (crypto.hmac sid (crypto.sha256 login) ++
      crypto.hmac sid (crypto.sha256 password)).length = 128 := by
    rw [String.length_append, crypto.length_hmac, crypto.length_hmac]
  have hform : c'.formHash = crypto.hmac sid (crypto.sha256 login) ++
      crypto.hmac sid (crypto.sha256 password) := by
    rw [Credentials.formHash, hhash]
    exact nbuStringCopy_of_lt (by rw [hlong]; decide)
  rw [loginPasswd_eq_success_iff hok, loginPasswd_eq_success_iff hok', hwebLogin, hwebPassword,
    Credentials.Match, Credentials.Match, if_pos (by rw [hnohash]; rfl),
    if_neg (by rw [hform, hlong]; decide), hform, hmac_append_inj]
  constructor
  · rintro ⟨l, p, hl, hp, hmatch⟩
    obtain rfl := Option.some.inj (hlogin.symm.trans hl)
    obtain rfl := Option.some.inj (hpassword.symm.trans hp)
    rwa [nbuStringCopy_of_lt (by omega), nbuStringCopy_of_lt (by omega)] at hmatch
  · intro hmatch
    refine ⟨login, password, hlogin, hpassword, ?_⟩
    rwa [nbuStringCopy_of_lt (by omega), nbuStringCopy_of_lt (by omega)]

/-- The login of `admin` with the password `secret`, in cleartext and as a hash. -/
theorem cleartext_iff_challenge_admin :
    let sid := String.ofList (List.replicate 40 '0')
    let hash := digests.hmac sid (digests.sha256 "admin") ++
      digests.hmac sid (digests.sha256 "secret")
    let cleartext : Credentials := ⟨none, some "admin", some "secret", some "admin",
      some "2bb80d537b1da3e38bd30361aa855686bde0eacd7162fef6a25fe97bf527a25b", .all, "", "", ""⟩
    let challenge : Credentials := ⟨some hash, none, none, some "admin",
      some "2bb80d537b1da3e38bd30361aa855686bde0eacd7162fef6a25fe97bf527a25b", .all, "", "", ""⟩
    ewfSmithLoginPasswd digests sid cleartext = .success ∧
      ewfSmithLoginPasswd digests sid challenge = .success := by
  intro sid hash cleartext challenge
  have hcleartext : ewfSmithLoginPasswd digests sid cleartext = .success := by
    rw [loginPasswd_eq_success_iff rfl, Credentials.Match,
      if_pos (show cleartext.formHash.length = 0 from rfl)]
    refine ⟨"admin", "secret", rfl, rfl, ?_, ?_⟩
    · rw [nbuStringCopy_of_lt (by decide)]
      rfl
    · have hsha : digests.sha256 "secret"
          = "2bb80d537b1da3e38bd30361aa855686bde0eacd7162fef6a25fe97bf527a25b" := by
        simp only [digests]
        exact if_neg (by decide)
      rw [nbuStringCopy_of_lt (by decide), hsha]
      rfl
  exact ⟨hcleartext, (cleartext_iff_challenge digests sid cleartext challenge "admin" "secret"
    rfl rfl rfl rfl rfl (by decide) (by decide) rfl rfl rfl).mp hcleartext⟩

end Neufbox.Libewf
