import Neufbox.Libnbu.Buffer

/-!
# What libnbu writes into buffers

`nbu_string_copy` and `nbu_string_printf` cut a text that does not fit, and say so.  The functions
for host names do not look at what they say.

* `nbuStringPrintfTo_eq`: the two functions write the same, and return the same;
* `nbuStringCopyTo_eq`, `nbuStringPrintfTo_of_fits`: what is in the buffer afterwards;
* `hostname_iff`: splitting and joining host names are inverse exactly if nothing is cut.
-/

namespace Neufbox.Libnbu

/-! ### Strings -/

section

variable {α : Type*} {size : BitVec 32} {str text : List α}

/-- The text and its NUL fit, and the size is one that is not refused. -/
def FitsBuffer (size : BitVec 32) (text : List α) : Prop :=
  text.length < size.toNat ∧ size.toNat < 2 ^ 31

/-- What a buffer holds after a text has been written to it. -/
def written (str : List α) (size : BitVec 32) (text : List α) : List α :=
  if size.toNat < 2 ^ 31 then text.take (size.toNat - 1) else str

theorem toInt_neg_iff : size.toInt < 0 ↔ 2 ^ 31 ≤ size.toNat := by
  rw [BitVec.toInt_neg_iff]
  omega

theorem toNat_pos (h : size ≠ 0) : 0 < size.toNat := by
  apply Nat.pos_of_ne_zero
  intro hzero
  exact h (BitVec.eq_of_toNat_eq hzero)

theorem ne_zero_of_lt_toNat {n : ℕ} (h : n < size.toNat) : size ≠ 0 := by
  rintro rfl
  exact Nat.not_lt_zero n h

theorem FitsBuffer.ne_zero (h : FitsBuffer size text) : size ≠ 0 := ne_zero_of_lt_toNat h.1

/-- A text fits if as much was written. -/
theorem fits_of_length_le (hsize : size ≠ 0) (hlt : size.toNat < 2 ^ 31) {text' : List α}
    (hle : text'.length ≤ (written str size text).length) : FitsBuffer size text' := by
  have hpos := toNat_pos hsize
  rw [written, if_pos hlt, List.length_take] at hle
  exact ⟨by omega, hlt⟩

/-- The two functions write the same, and return the same. -/
theorem nbuStringPrintfTo_eq (str : List α) (size : BitVec 32) (text : List α) :
    nbuStringPrintfTo str size text = nbuStringCopyTo str size text := by
  unfold nbuStringPrintfTo nbuStringCopyTo
  by_cases hneg : size.toInt < 0
  · rw [if_pos hneg, if_pos hneg]
  rw [if_neg hneg, if_neg hneg]
  by_cases hzero : size = 0
  · rw [if_pos hzero, if_pos hzero]
  rw [if_neg hzero, if_neg hzero]
  have hsize : size.toNat < 2 ^ 31 := Nat.not_le.mp fun hle => hneg (toInt_neg_iff.mpr hle)
  have hint : size.toInt = size.toNat := BitVec.toInt_eq_toNat_of_lt (by omega)
  dsimp only
  by_cases hfits : size.toNat ≤ text.length
  · rw [if_pos hfits]
    by_cases hlength : text.length < 2 ^ 31
    · have hret : vsnprintfRet text.length = text.length := if_pos hlength
      rw [hret, hint, if_neg (by omega), if_pos (by omega)]
    · have hret : vsnprintfRet text.length = -1 := if_neg hlength
      rw [hret, if_pos (by decide)]
  · have hret : vsnprintfRet text.length = text.length := if_pos (by omega)
    rw [if_neg hfits, hret, hint, if_neg (by omega), if_neg (by omega),
      List.take_of_length_le (by omega)]

theorem written_of_fits (h : FitsBuffer size text) (str : List α) :
    written str size text = text := by
  rw [written, if_pos h.2]
  apply List.take_of_length_le
  have := h.1
  omega

/-- **What is copied**: the beginning of the text, and whether that is all of it is returned. -/
theorem nbuStringCopyTo_eq (hsize : size ≠ 0) (hlt : size.toNat < 2 ^ 31) (str text : List α) :
    nbuStringCopyTo str size text
      = some (if text.length < size.toNat then .success else .error,
        text.take (size.toNat - 1)) := by
  rw [nbuStringCopyTo, if_neg (by rw [toInt_neg_iff]; omega), if_neg hsize]
  by_cases hle : size.toNat ≤ text.length
  · rw [if_pos hle, if_neg (by omega)]
  · rw [if_neg hle, if_pos (by omega), List.take_of_length_le (by omega)]

theorem nbuStringCopyTo_refused (hge : 2 ^ 31 ≤ size.toNat) (str text : List α) :
    nbuStringCopyTo str size text = some (.error, str) :=
  if_pos (toInt_neg_iff.mpr hge)

/-- The function returns, and the buffer holds what is written to it. -/
theorem exists_nbuStringCopyTo (hsize : size ≠ 0) (str text : List α) :
    ∃ ret, nbuStringCopyTo str size text = some (ret, written str size text) := by
  rw [written]
  split_ifs with hlt
  · exact ⟨_, nbuStringCopyTo_eq hsize hlt str text⟩
  · exact ⟨_, nbuStringCopyTo_refused (Nat.not_lt.mp hlt) str text⟩

theorem exists_nbuStringPrintfTo (hsize : size ≠ 0) (str text : List α) :
    ∃ ret, nbuStringPrintfTo str size text = some (ret, written str size text) := by
  rw [nbuStringPrintfTo_eq]
  exact exists_nbuStringCopyTo hsize str text

/-- **A text that fits** is written whole. -/
theorem nbuStringPrintfTo_of_fits (h : FitsBuffer size text) (str : List α) :
    nbuStringPrintfTo str size text = some (.success, text) := by
  rw [nbuStringPrintfTo_eq, nbuStringCopyTo_eq h.ne_zero h.2, if_pos h.1,
    List.take_of_length_le (by have := h.1; omega)]

end

/-! ### Splitting -/

/-- The first dot of a name is where its host ends. -/
theorem length_le_of_dot_notMem {host domain before after : List Char}
    (h : host ++ '.' :: domain = before ++ '.' :: after) (hdot : '.' ∉ before) :
    before.length ≤ host.length := by
  by_contra hlt
  rw [Nat.not_le] at hlt
  obtain ⟨mid, rfl, hmid⟩ | ⟨mid, rfl, -⟩ := List.append_eq_append_iff.mp h
  · cases mid with
    | nil => exact absurd hlt (by simp)
    | cons c mid =>
      obtain rfl : '.' = c := (List.cons.inj hmid).1
      exact hdot (by simp)
  · rw [List.length_append] at hlt
    omega

section

variable {hostname before after : List Char} {hostLen domainLen : BitVec 32}

/-- What is printed with the length of the host as the precision. -/
theorem precisionText_host (hlength : before.length < 2 ^ 31) (rest : List Char) :
    precisionText (BitVec.ofNat 32 before.length).toInt (before ++ rest) = before := by
  have htoNat : (BitVec.ofNat 32 before.length).toNat = before.length := by
    rw [BitVec.toNat_ofNat]
    omega
  have hint : (BitVec.ofNat 32 before.length).toInt = before.length := by
    rw [BitVec.toInt_eq_toNat_of_lt (by omega), htoNat]
  rw [precisionText, hint, if_neg (by omega), Int.toNat_natCast, List.take_left]

/-- A name with a domain is split at its first dot. -/
theorem exists_nbuNetSplitHostname (hdot : '.' ∉ before) (hafter : after ≠ [])
    (hhost : hostLen ≠ 0) (hdomain : domainLen ≠ 0) (host domain : List Char) :
    ∃ text, nbuNetSplitHostname (before ++ '.' :: after) host hostLen domain domainLen
        = some (.success, written host hostLen text, written domain domainLen after) ∧
      (before.length < 2 ^ 31 → text = before) := by
  obtain ⟨ret, hprint⟩ := exists_nbuStringPrintfTo hhost host
    (precisionText (BitVec.ofNat 32 before.length).toInt (before ++ '.' :: after))
  obtain ⟨ret', hcopy⟩ := exists_nbuStringCopyTo hdomain domain after
  refine ⟨_, ?_, fun hlength => precisionText_host hlength ('.' :: after)⟩
  unfold nbuNetSplitHostname
  rw [strstr_append hdot after]
  dsimp only
  rw [if_pos hafter, hprint, Option.bind_eq_bind, Option.bind_some]
  dsimp only
  rw [hcopy, Option.bind_some]

theorem nbuNetSplitHostname_of_fits (hdot : '.' ∉ before) (hafter : after ≠ [])
    (hhost : FitsBuffer hostLen before) (hdomain : FitsBuffer domainLen after)
    (host domain : List Char) :
    nbuNetSplitHostname (before ++ '.' :: after) host hostLen domain domainLen
      = some (.success, before, after) := by
  obtain ⟨text, hsplit, htext⟩ :=
    exists_nbuNetSplitHostname hdot hafter hhost.ne_zero hdomain.ne_zero host domain
  obtain rfl := htext (Nat.lt_trans hhost.1 hhost.2)
  rw [hsplit, written_of_fits hhost, written_of_fits hdomain]

/-- A name that is split has a domain behind its first dot. -/
theorem exists_dot_of_nbuNetSplitHostname {host domain host' domain' : List Char}
    (h : nbuNetSplitHostname hostname host hostLen domain domainLen
      = some (.success, host', domain')) :
    ∃ before after, hostname = before ++ '.' :: after ∧ '.' ∉ before ∧ after ≠ [] := by
  by_cases hmem : '.' ∈ hostname
  · obtain ⟨before, after, rfl, hdot⟩ := List.eq_append_cons_of_mem hmem
    refine ⟨before, after, rfl, hdot, ?_⟩
    rintro rfl
    rw [nbuNetSplitHostname, strstr_append hdot] at h
    exact nomatch h
  · rw [nbuNetSplitHostname, strstr_of_notMem hmem] at h
    exact nomatch h

end

/-- The parts that a name is split into are the name, whatever the buffers held. -/
def SplitsName (hostname : List Char) (hostLen domainLen : BitVec 32) : Prop :=
  ∀ host domain host' domain',
    nbuNetSplitHostname hostname host hostLen domain domainLen = some (.success, host', domain') →
      host' ++ '.' :: domain' = hostname

/-- **Splitting**: the parts are the name exactly if each fits in its buffer. -/
theorem splitsName_iff {hostLen domainLen : BitVec 32} (hhost : hostLen ≠ 0)
    (hdomain : domainLen ≠ 0) (hostname : List Char) :
    SplitsName hostname hostLen domainLen ↔
      ∀ before after, hostname = before ++ '.' :: after → '.' ∉ before → after ≠ [] →
        FitsBuffer hostLen before ∧ FitsBuffer domainLen after := by
  constructor
  · rintro h before after rfl hdot hafter
    -- what the buffers hold is neither the host nor the domain
    obtain ⟨host, hcons⟩ : ∃ host : List Char,
        host.length < before.length ∨ host = ['a'] ∧ before = [] := by
      cases before with
      | nil => exact ⟨['a'], .inr ⟨rfl, rfl⟩⟩
      | cons c before => exact ⟨[], .inl (Nat.succ_pos _)⟩
    obtain ⟨text, hsplit, htext⟩ :=
      exists_nbuNetSplitHostname hdot hafter hhost hdomain host []
    have hname := h host [] _ _ hsplit
    have hle := length_le_of_dot_notMem hname hdot
    have hfits : FitsBuffer hostLen before := by
      by_cases hlt : hostLen.toNat < 2 ^ 31
      · exact fits_of_length_le hhost hlt hle
      rw [written, if_neg hlt] at hle hname
      rcases hcons with hshort | ⟨rfl, rfl⟩
      · omega
      · exact absurd (List.cons.inj hname).1 (by decide)
    obtain rfl := htext (Nat.lt_trans hfits.1 hfits.2)
    rw [written_of_fits hfits] at hname
    have hafter' : written [] domainLen after = after :=
      (List.cons.inj (List.append_cancel_left hname)).2
    refine ⟨hfits, ?_⟩
    by_cases hlt : domainLen.toNat < 2 ^ 31
    · exact fits_of_length_le hdomain hlt (Nat.le_of_eq (congrArg List.length hafter'.symm))
    · rw [written, if_neg hlt] at hafter'
      exact absurd hafter'.symm hafter
  · intro h host domain host' domain' hsplit
    obtain ⟨before, after, rfl, hdot, hafter⟩ := exists_dot_of_nbuNetSplitHostname hsplit
    obtain ⟨hfits, hfits'⟩ := h before after rfl hdot hafter
    rw [nbuNetSplitHostname_of_fits hdot hafter hfits hfits'] at hsplit
    obtain ⟨-, heq⟩ := Prod.mk.inj (Option.some.inj hsplit)
    obtain ⟨rfl, rfl⟩ := Prod.mk.inj heq
    rfl

/-! ### Joining -/

/-- The name is split into these parts, with all buffers that are large enough. -/
def GivesBack (hostname host domain : List Char) : Prop :=
  ∃ n < 2 ^ 31, ∀ hostLen domainLen : BitVec 32,
    n ≤ hostLen.toNat → hostLen.toNat < 2 ^ 31 →
    n ≤ domainLen.toNat → domainLen.toNat < 2 ^ 31 →
      ∀ host' domain', nbuNetSplitHostname hostname host' hostLen domain' domainLen
        = some (.success, host, domain)

/-- Joining returns, and a name that is joined is split into its parts again. -/
def JoinsName (host domain : List Char) (hostnameLen : BitVec 32) : Prop :=
  ∀ hostname, ∃ ret name, nbuNetJoinHostname host domain hostname hostnameLen = some (ret, name) ∧
    (ret = .success → GivesBack name host domain)

/-- The hosts that are joined: `0 < n && n < 21` -/
def HostAccepted (host : List Char) : Prop :=
  0 < (BitVec.ofNat 32 host.length).toInt ∧ (BitVec.ofNat 32 host.length).toInt < 21

section

variable {host domain name : List Char}

theorem givesBack_append (hdot : '.' ∉ host) (hdomain : domain ≠ [])
    (hlength : (host ++ '.' :: domain).length < 2 ^ 31 - 1) :
    GivesBack (host ++ '.' :: domain) host domain := by
  rw [List.length_append, List.length_cons] at hlength
  refine ⟨host.length + domain.length + 1, by omega, ?_⟩
  intro hostLen domainLen hle hlt hle' hlt' host' domain'
  exact nbuNetSplitHostname_of_fits hdot hdomain ⟨by omega, hlt⟩ ⟨by omega, hlt'⟩ host' domain'

/-- A name that is split into these parts with large buffers consists of them. -/
theorem GivesBack.eq_append (h : GivesBack name host domain) (hlength : name.length < 2 ^ 31 - 1) :
    name = host ++ '.' :: domain := by
  obtain ⟨n, hn, hsplit⟩ := h
  have hsize : (0x7fffffff#32).toNat = 2 ^ 31 - 1 := rfl
  have hsplit := hsplit 0x7fffffff#32 0x7fffffff#32 (by omega) (by omega) (by omega) (by omega)
  refine ((splitsName_iff (by decide) (by decide) name).mpr ?_ [] [] host domain
    (hsplit [] [])).symm
  rintro before after rfl - -
  rw [List.length_append, List.length_cons] at hlength
  exact ⟨⟨by omega, by omega⟩, by omega, by omega⟩

/-- **Joining**: what is joined is split into its parts again exactly if it fits in the buffer. -/
theorem joinsName_iff (hdot : '.' ∉ host) (hdomain : domain ≠ []) (hostnameLen : BitVec 32) :
    JoinsName host domain hostnameLen ↔
      (HostAccepted host → FitsBuffer hostnameLen (host ++ '.' :: domain)) := by
  by_cases haccepted : HostAccepted host
  swap
  · refine iff_of_true (fun hostname => ⟨.error, hostname, if_neg haccepted, ?_⟩)
      fun h => absurd h haccepted
    intro h
    cases h
  have hjoin (hostname : List Char) : nbuNetJoinHostname host domain hostname hostnameLen
      = (nbuStringPrintfTo hostname hostnameLen (host ++ '.' :: domain)).bind
        fun r => some (.success, r.2) := if_pos haccepted
  constructor
  · intro h _
    obtain ⟨ret, name, hname, hback⟩ := h []
    rw [hjoin] at hname
    have hsize : hostnameLen ≠ 0 := by
      rintro rfl
      cases hname
    obtain ⟨ret', hprint⟩ := exists_nbuStringPrintfTo hsize [] (host ++ '.' :: domain)
    rw [hprint] at hname
    obtain ⟨rfl, rfl⟩ := Prod.mk.inj (Option.some.inj hname)
    have hpos := toNat_pos hsize
    have hlength : (written [] hostnameLen (host ++ '.' :: domain)).length < 2 ^ 31 - 1 := by
      rw [written]
      split_ifs with hlt
      · rw [List.length_take]
        omega
      · decide
    have heq := (hback rfl).eq_append hlength
    by_cases hlt : hostnameLen.toNat < 2 ^ 31
    · exact fits_of_length_le hsize hlt (Nat.le_of_eq (congrArg List.length heq.symm))
    · rw [written, if_neg hlt] at heq
      exact absurd heq (by simp)
  · intro h hostname
    have hfits := h haccepted
    refine ⟨.success, host ++ '.' :: domain, ?_, fun _ => ?_⟩
    · rw [hjoin, nbuStringPrintfTo_of_fits hfits, Option.bind_some]
    · have hlength := hfits.1
      have hlt := hfits.2
      exact givesBack_append hdot hdomain (by omega)

end

/-- **Host names.**  For every name and all buffers of at least one byte, the parts that the name is
split into are the name if and only if each of them fits in its buffer.  For every host without dots
and every domain, what is joined is split into them again if and only if it fits in its buffer,
where the length of the host is one that is accepted. -/
theorem hostname_iff (hostname host domain : List Char)
    (hostLen domainLen hostnameLen : BitVec 32) :
    (hostLen ≠ 0 → domainLen ≠ 0 →
      (SplitsName hostname hostLen domainLen ↔
        ∀ before after, hostname = before ++ '.' :: after → '.' ∉ before → after ≠ [] →
          FitsBuffer hostLen before ∧ FitsBuffer domainLen after)) ∧
    ('.' ∉ host → domain ≠ [] →
      (JoinsName host domain hostnameLen ↔
        (HostAccepted host → FitsBuffer hostnameLen (host ++ '.' :: domain)))) := by
  constructor
  · intro hhost hdomain
    exact splitsName_iff hhost hdomain hostname
  · intro hdot hdomain
    exact joinsName_iff hdot hdomain hostnameLen

/-- Both functions succeed though what they write is cut. -/
theorem hostname_cut :
    nbuNetSplitHostname "box.example.org".toList [] 3 [] 16
        = some (.success, "bo".toList, "example.org".toList) ∧
      nbuNetJoinHostname "box".toList "example.org".toList [] 8
        = some (.success, "box.exa".toList) := by
  decide

end Neufbox.Libnbu
