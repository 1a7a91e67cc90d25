import Neufbox.Libewf.Equiv.Credentials

/-!
# What the access control does without its configuration

`ewf_config_get` answers a read that failed with a default: the web server then runs as if
`web_auth` were `off`, `web_login` were `admin` and `web_password` were empty.
`smith_config_fallback` states what the access control and the login with a password make of every
outcome of their reads, and `accessControl_open_without_config` is the failed read that opens the
site.
-/

namespace Neufbox.Libewf

/-- The access control is off when `web_auth` was read as `off`, and when it could not be read. -/
theorem accessControl_eq_authOff_iff (list : Sessions) (access : PageAccess) (visit : Visit) :
    (ewfSmithAccessControl list access visit).1 = .authOff ↔
      visit.webAuth = some "off" ∨ visit.webAuth = none := by
  have hoff : configValue "web_auth" visit.webAuth = "off" ↔
      visit.webAuth = some "off" ∨ visit.webAuth = none := by
    rw [configValue_webAuth]
    cases visit.webAuth <;> simp
  rw [← hoff]
  unfold ewfSmithAccessControl
  split_ifs with h
  · simp [h]
  · rcases ewfSmithCheckSession list visit with ⟨b, list', events⟩
    cases b
    · cases access <;> simp [h]
    · simp [h]

/-- **Access without configuration.**  For every outcome of the reads: the access control is off if
and only if `web_auth` was read as `off` or could not be read; and a login with a password in which
no hash fails succeeds only with credentials that match the values in force, which are those that
were read or, where the read failed, `admin` and the empty password. -/
theorem smith_config_fallback (list : Sessions) (access : PageAccess) (visit : Visit)
    (crypto : Crypto) (sid : String) (c : Credentials) (hok : c.ok = .all) :
    ((ewfSmithAccessControl list access visit).1 = .authOff ↔
      visit.webAuth = some "off" ∨ visit.webAuth = none) ∧
    (ewfSmithLoginPasswd crypto sid c = .success →
      c.Match crypto sid (c.webLogin.getD "admin") (c.webPassword.getD "")) :=
  ⟨accessControl_eq_authOff_iff list access visit, (loginPasswd_eq_success_iff hok).mp⟩

/-- The login of `admin` with the password `secret`, when `web_login` cannot be read. -/
theorem smith_config_fallback_admin :
    let sid := String.ofList (List.replicate 40 '0')
    let c : Credentials := ⟨none, some "admin", some "secret", none,
      some "2bb80d537b1da3e38bd30361aa855686bde0eacd7162fef6a25fe97bf527a25b", .all, "", "", ""⟩
    ewfSmithLoginPasswd digests sid c = .success ∧
      c.Match digests sid "admin"
        "2bb80d537b1da3e38bd30361aa855686bde0eacd7162fef6a25fe97bf527a25b" := by
  have hsuccess : ewfSmithLoginPasswd digests (String.ofList (List.replicate 40 '0'))
      ⟨none, some "admin", some "secret", none,
        some "2bb80d537b1da3e38bd30361aa855686bde0eacd7162fef6a25fe97bf527a25b", .all, "", "", ""⟩
      = .success := by decide +kernel
  exact ⟨hsuccess,
    (smith_config_fallback .empty .private_ ⟨none, none, 0⟩ digests _ _ rfl).2 hsuccess⟩

/-- `web_auth` cannot be read: a private page is open to a visitor without a session. -/
theorem accessControl_open_without_config :
    (ewfSmithAccessControl .empty .private_ ⟨none, none, 0⟩).1 = .authOff := by
  decide

end Neufbox.Libewf
