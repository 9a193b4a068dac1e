/-
  The texts of a load balancer's VIP and backends (`ovn_lb_vip_init_explicit`, `ovn_lb_vip_format`
  and `ovn_lb_vip_backends_format` of `lib/lb.c`).

  The notation of addresses is not fixed: `Inet` has what is needed of it, and that
  `ip_address_and_port_from_lb_key` accepts an address, an IPv4 address with a port and an IPv6
  address in brackets with a port, and nothing else.
-/
import Mathlib.Data.List.Basic

namespace Ovn.LbText

open List

/-! ## The code -/

inductive Family
  | inet | inet6
  deriving DecidableEq

abbrev Text := List Char

/-- A port number as it is read. -/
def IsPort (t : Text) (port : ℕ) : Prop :=
  t ≠ [] ∧ t.all (·.isDigit) ∧ Nat.ofDigitChars 10 t 0 = port ∧ port < 65536

instance (t : Text) (port : ℕ) : Decidable (IsPort t port) := inferInstanceAs (Decidable (_ ∧ _))

/-- What is accepted, if the addresses are written as in `IsText`. -/
inductive Accepts {A : Type*} (family : A → Family) (IsText : Text → A → Prop) : Text → A × ℕ → Prop
  | address {t a} : IsText t a → Accepts family IsText t (a, 0)
  | inet {t a u port} : IsText t a → family a = .inet → IsPort u port →
    Accepts family IsText (t ++ ':' :: u) (a, port)
  | inet6 {t a u port} : IsText t a → family a = .inet6 → IsPort u port →
    Accepts family IsText ('[' :: t ++ ']' :: ':' :: u) (a, port)

/-- Addresses and their notation. -/
structure Inet (A : Type*) where
  family : A → Family
  /-- The texts of an address. -/
  IsText : Text → A → Prop
  /-- `ss_format_address_nobracks`. -/
  format : A → Text
  isText_format : ∀ a, IsText (format a) a
  format_ne_nil : ∀ a, format a ≠ []
  comma_notMem_format : ∀ a, ',' ∉ format a
  bracket_notMem_format : ∀ a, '[' ∉ format a
  in6addrAny : A
  ipAddressAndPortFromLbKey : Text → Option (A × ℕ)
  accepts_iff : ∀ {t r}, ipAddressAndPortFromLbKey t = some r ↔ Accepts family IsText t r

structure Backend (A : Type*) where
  ip : A
  ipStr : Text
  port : ℕ
  portStr : Option Text

structure LbVip (A : Type*) where
  vip : A
  vipStr : Text
  vipPort : ℕ
  portStr : Option Text
  addressFamily : Family
  backends : List (Backend A)

def portStr (port : ℕ) : Option Text :=
  if port = 0 then none else some (Nat.toDigits 10 port)

/-- `strtok_r` with the delimiter `,`: there is no empty token. -/
def tokens (value : Text) : List Text := (value.splitOn ',').filter (· ≠ [])

def dsChomp (c : Char) (s : Text) : Text :=
  if s.getLast? = some c then s.dropLast else s

def badKey : Text :=
  ": should be an IP address (or an IP address and a port number with : as a separator).".toList

/-- What is said of a token that is no address, or has a port where the VIP has none or none where
    it has one. -/
def badBackend (portStr : Option Text) : Text :=
  if portStr.isSome then
    ": should be an IP address and a port number with : as a separator, ".toList
  else ": should be an IP address, ".toList

def otherFamily (vipStr : Text) : Text :=
  ": IP address family is different from VIP ".toList ++ vipStr ++ ", ".toList

/-- An address, with brackets or without, and its port. -/
def withPort (needsBrackets : Bool) (ipStr : Text) (portStr : Option Text) : Text :=
  (if needsBrackets then '[' :: ipStr ++ [']'] else ipStr) ++ portStr.elim [] (':' :: ·)

namespace Inet

variable {A : Type*} (N : Inet A) (lbVip : LbVip A)

def ovnLbBackendInitExplicit (token : Text) : Except Text (Backend A) :=
  match N.ipAddressAndPortFromLbKey token with
  | none => .error (token ++ badBackend lbVip.portStr)
  | some (ip, port) =>
    if lbVip.addressFamily ≠ N.family ip then .error (token ++ otherFamily lbVip.vipStr)
    else if lbVip.portStr.isSome = (port = 0) then .error (token ++ badBackend lbVip.portStr)
    else .ok ⟨ip, N.format ip, port, portStr port⟩

/-- The loop over the tokens: the errors, none of which is empty, and the backends. -/
def ovnLbBackendsInitExplicit : List Text → List Text × List (Backend A)
  | [] => ([], [])
  | token :: tokens =>
    let (errors, backends) := ovnLbBackendsInitExplicit tokens
    match N.ovnLbBackendInitExplicit lbVip token with
    | .error e => (e :: errors, backends)
    | .ok backend => (errors, backend :: backends)

def vipOf (vip : A) (port : ℕ) (backends : List (Backend A)) : LbVip A :=
  ⟨vip, N.format vip, port, portStr port, N.family vip, backends⟩

def ovnLbVipInitExplicit (lbKey lbValue : Text) : Except Text (LbVip A) :=
  match N.ipAddressAndPortFromLbKey lbKey with
  | none => .error (lbKey ++ badKey)
  | some (vip, port) =>
    match N.ovnLbBackendsInitExplicit (N.vipOf vip port []) (tokens lbValue) with
    | ([], backends) => .ok (N.vipOf vip port backends)
    | (errors, _) => .error (dsChomp ',' (dsChomp ' ' errors.flatten) ++ ['.'])

def ovnLbVipFormat : Text :=
  withPort (lbVip.addressFamily = .inet6 && lbVip.portStr.isSome) lbVip.vipStr lbVip.portStr

section
variable [DecidableEq A]

def backendFormat (backend : Backend A) : Text :=
  withPort (lbVip.addressFamily = .inet6 && lbVip.portStr.isSome && backend.ip ≠ N.in6addrAny)
    backend.ipStr backend.portStr

def ovnLbVipBackendsFormat : Text := [','].intercalate (lbVip.backends.map (N.backendFormat lbVip))

end

/-! ## The round trip -/

theorem isPort_toDigits {port : ℕ} (h : port < 65536) : IsPort (Nat.toDigits 10 port) port :=
  ⟨Nat.toDigits_ne_nil, all_eq_true.2 fun _ => Nat.isDigit_of_mem_toDigits (by decide) (by decide),
    Nat.ofDigitChars_toDigits (by decide) (by decide), h⟩

variable {N lbVip} {token : Text} {a vip : A} {port : ℕ} {backend : Backend A}

theorem lt_of_accepts {r : A × ℕ} (h : Accepts N.family N.IsText token r) : r.2 < 65536 := by
  cases h with
  | address => exact Nat.zero_lt_succ _
  | inet _ _ h => exact h.2.2.2
  | inet6 _ _ h => exact h.2.2.2

theorem ipAddressAndPortFromLbKey_withPort (h : port < 65536) : N.ipAddressAndPortFromLbKey
    (withPort (N.family a = .inet6 && (portStr port).isSome) (N.format a) (portStr port)) = some
      (a, port) := by
  rw [N.accepts_iff]
  have ht := N.isText_format a
  by_cases h0 : port = 0
  · subst h0
    simpa [withPort, portStr] using Accepts.address ht
  · cases hf : N.family a with
    | inet => simpa [withPort, portStr, h0] using Accepts.inet ht hf (isPort_toDigits h)
    | inet6 => simpa [withPort, portStr, h0] using Accepts.inet6 ht hf (isPort_toDigits h)

theorem ovnLbBackendInitExplicit_iff : N.ovnLbBackendInitExplicit lbVip token = .ok backend ↔
    ∃ ip port, N.ipAddressAndPortFromLbKey token = some (ip, port) ∧
      lbVip.addressFamily = N.family ip ∧
      (lbVip.portStr.isSome ↔ port ≠ 0) ∧ backend = ⟨ip, N.format ip, port, portStr port⟩ := by
  unfold ovnLbBackendInitExplicit
  rcases N.ipAddressAndPortFromLbKey token with _ | ⟨ip, port⟩
  · simp
  · by_cases hf : lbVip.addressFamily = N.family ip
    · by_cases hp : port = 0 <;> cases lbVip.portStr <;> simp [hf, hp, eq_comm]
    · simp [hf]

theorem ovnLbBackendsInitExplicit_iff {tokens : List Text} {backends : List (Backend A)} :
    N.ovnLbBackendsInitExplicit lbVip tokens = ([], backends) ↔
      tokens.map (N.ovnLbBackendInitExplicit lbVip) = backends.map .ok := by
  induction tokens generalizing backends with
  | nil => simp [ovnLbBackendsInitExplicit, eq_comm]
  | cons token tokens ih =>
    rw [ovnLbBackendsInitExplicit, map_cons]
    cases N.ovnLbBackendInitExplicit lbVip token with
    | error e => cases backends <;> simp
    | ok backend =>
      cases backends with
      | nil => simp
      | cons backend' backends =>
        grind

theorem ovnLbVipInitExplicit_iff {lbKey lbValue : Text} :
    N.ovnLbVipInitExplicit lbKey lbValue = .ok lbVip ↔
      ∃ vip port backends, N.ipAddressAndPortFromLbKey lbKey = some (vip, port) ∧
        lbVip = N.vipOf vip port backends ∧
        (tokens lbValue).map (N.ovnLbBackendInitExplicit lbVip) = backends.map .ok := by
  unfold ovnLbVipInitExplicit
  rcases N.ipAddressAndPortFromLbKey lbKey with _ | ⟨vip, port⟩
  · simp
  -- the backends are not read while they are made
  have hiff : ∀ backends, N.ovnLbBackendsInitExplicit (N.vipOf vip port []) (tokens lbValue) =
    ([], backends) ↔
      (tokens lbValue).map (N.ovnLbBackendInitExplicit (N.vipOf vip port backends)) =
        backends.map .ok :=
    fun _ => ovnLbBackendsInitExplicit_iff
  constructor
  · intro h
    dsimp only at h
    split at h
    · next backends hbs =>
      cases h
      exact ⟨vip, port, backends, rfl, rfl, (hiff backends).1 hbs⟩
    · cases h
  · rintro ⟨_, _, backends, ⟨⟩, rfl, hbs⟩
    dsimp only
    rw [(hiff backends).2 hbs]

theorem tokens_intercalate {ts : List Text} (h : ∀ t ∈ ts, ',' ∉ t ∧ t ≠ []) :
    tokens ([','].intercalate ts) = ts := by
  by_cases hts : ts = []
  · subst hts
    simp [tokens]
  · rw [tokens, splitOn_intercalate _ (fun t ht => (h t ht).1) hts]
    exact filter_eq_self.2 fun t ht => decide_eq_true (h t ht).2

theorem comma_notMem_withPort (b : Bool) :
    ',' ∉ withPort b (N.format a) (portStr port) ∧ withPort b (N.format a) (portStr port) ≠ [] := by
  have hdigits : ',' ∉ Nat.toDigits 10 port := fun h =>
    absurd (Nat.isDigit_of_mem_toDigits (by decide) (by decide) h) (by decide)
  have hcomma := N.comma_notMem_format a
  have hnil := N.format_ne_nil a
  by_cases h0 : port = 0 <;> cases b <;> simp [withPort, portStr, h0, hdigits, hcomma, hnil]

section
variable {lbKey lbValue : Text} {backends : List (Backend A)}

/-- What the texts say goes wrong: the VIP is an IPv6 address with a port, and a backend is `::`. -/
def UnspecifiedBackend (N : Inet A) (lbKey lbValue : Text) : Prop :=
  (∃ vip port, N.ipAddressAndPortFromLbKey lbKey = some (vip, port) ∧ N.family vip = .inet6 ∧
    port ≠ 0) ∧
    ∃ token ∈ tokens lbValue, ∃ port, N.ipAddressAndPortFromLbKey token = some (N.in6addrAny, port)

theorem mem_backends_iff
    (h : (tokens lbValue).map (N.ovnLbBackendInitExplicit lbVip) = backends.map .ok) :
    backend ∈ backends ↔
      ∃ token ∈ tokens lbValue, N.ovnLbBackendInitExplicit lbVip token = .ok backend := by
  have hmem : backend ∈ backends ↔ (.ok backend : Except Text _) ∈ backends.map .ok := by simp
  rw [hmem, ← h, mem_map]

/-- On texts that are accepted, in terms of the VIP and of the backends that are made of them. -/
theorem unspecifiedBackend_iff (hkey : N.ipAddressAndPortFromLbKey lbKey = some (vip, port))
    (h : (tokens lbValue).map (N.ovnLbBackendInitExplicit (N.vipOf vip port backends)) =
      backends.map .ok) :
    N.UnspecifiedBackend lbKey lbValue ↔
      N.family vip = .inet6 ∧ port ≠ 0 ∧ ∃ backend ∈ backends, backend.ip = N.in6addrAny := by
  constructor
  · rintro ⟨⟨vip', port', hkey', hf, hp⟩, token, htoken, q, hany⟩
    obtain ⟨rfl, rfl⟩ : vip = vip' ∧ port = port' := by simpa using hkey.symm.trans hkey'
    have hok : N.ovnLbBackendInitExplicit (N.vipOf vip port backends) token ∈ backends.map .ok :=
      h ▸ mem_map_of_mem htoken
    obtain ⟨backend, hb, hbackend⟩ := mem_map.1 hok
    obtain ⟨ip, _, hip, -, -, rfl⟩ := ovnLbBackendInitExplicit_iff.1 hbackend.symm
    obtain ⟨rfl, rfl⟩ : ip = N.in6addrAny ∧ _ = q := by simpa using hip.symm.trans hany
    exact ⟨hf, hp, _, hb, rfl⟩
  · rintro ⟨hf, hp, backend, hb, hany⟩
    obtain ⟨token, htoken, hbackend⟩ := (mem_backends_iff h).1 hb
    obtain ⟨ip, q, hip, -, -, rfl⟩ := ovnLbBackendInitExplicit_iff.1 hbackend
    exact ⟨⟨vip, port, hkey, hf, hp⟩, token, htoken, q, hany ▸ hip⟩

end

variable [DecidableEq A]

/-- The text of a backend is read as the backend, unless it is `::` with a port: without brackets,
    an IPv6 address has no port. -/
theorem ovnLbBackendInitExplicit_backendFormat
    (h : N.ovnLbBackendInitExplicit lbVip token = .ok backend) :
    N.ovnLbBackendInitExplicit lbVip (N.backendFormat lbVip backend) = .ok backend ↔
      ¬(lbVip.addressFamily = .inet6 ∧ lbVip.portStr.isSome ∧ backend.ip = N.in6addrAny) := by
  obtain ⟨ip, port, hip, hf, hp, rfl⟩ := ovnLbBackendInitExplicit_iff.1 h
  have hs : (portStr port).isSome = lbVip.portStr.isSome := by
    rw [Bool.eq_iff_iff, hp]
    simp [portStr]
  by_cases hany : lbVip.addressFamily = .inet6 ∧ lbVip.portStr.isSome ∧ ip = N.in6addrAny
  · refine iff_of_false (fun hread => ?_) (not_not_intro hany)
    obtain ⟨h6, hport, rfl⟩ := hany
    have h0 : port ≠ 0 := hp.1 hport
    have htext : N.backendFormat lbVip ⟨N.in6addrAny, N.format N.in6addrAny, port, portStr port⟩ =
        N.format N.in6addrAny ++ ':' :: Nat.toDigits 10 port := by
      simp [backendFormat, withPort, portStr, h0]
    obtain ⟨_, _, hip', -, -, heq⟩ := ovnLbBackendInitExplicit_iff.1 (htext ▸ hread)
    obtain ⟨rfl, -, rfl, -⟩ := Backend.mk.inj heq
    -- the text is no address alone, no IPv4 address and has no bracket
    generalize ht : N.format N.in6addrAny ++ ':' :: Nat.toDigits 10 port = t at hip'
    cases N.accepts_iff.1 hip' with
    | address => exact h0 rfl
    | inet _ h4 => exact absurd (hf.symm.trans h6) (h4 ▸ nofun)
    | inet6 =>
      obtain ⟨c, cs, hcs⟩ := exists_cons_of_ne_nil (N.format_ne_nil N.in6addrAny)
      have hc : c = '[' := by
        rw [hcs] at ht
        exact (cons.inj ht).1
      exact N.bracket_notMem_format N.in6addrAny (by simp [hcs, hc])
  · refine iff_of_true ?_ hany
    have htext : N.backendFormat lbVip ⟨ip, N.format ip, port, portStr port⟩ =
        withPort (N.family ip = .inet6 && (portStr port).isSome) (N.format ip) (portStr port) := by
      rw [backendFormat, hs, ← hf]
      congr 1
      simpa using hany
    rw [htext, ovnLbBackendInitExplicit_iff]
    exact ⟨ip, port, ipAddressAndPortFromLbKey_withPort (lt_of_accepts (N.accepts_iff.1 hip)), hf,
      hp, rfl⟩

/-- The texts of the backends are the tokens of their list. -/
theorem tokens_ovnLbVipBackendsFormat (h : ∀ backend ∈ lbVip.backends, ∃ token,
    N.ovnLbBackendInitExplicit lbVip token = .ok backend) :
    tokens (N.ovnLbVipBackendsFormat lbVip) = lbVip.backends.map (N.backendFormat lbVip) := by
  refine tokens_intercalate fun t ht => ?_
  obtain ⟨backend, hb, rfl⟩ := mem_map.1 ht
  obtain ⟨_, htoken⟩ := h backend hb
  obtain ⟨ip, port, -, -, -, rfl⟩ := ovnLbBackendInitExplicit_iff.1 htoken
  exact comma_notMem_withPort _

/-- **The round trip**: it fails exactly on a VIP with an IPv6 address and a port that has `::` for
    a backend. -/
theorem ovnLbVipInitExplicit_format {lbKey lbValue : Text}
    (h : N.ovnLbVipInitExplicit lbKey lbValue = .ok lbVip) :
    N.ovnLbVipInitExplicit (ovnLbVipFormat lbVip) (N.ovnLbVipBackendsFormat lbVip) = .ok lbVip ↔
      ¬N.UnspecifiedBackend lbKey lbValue := by
  obtain ⟨vip, port, backends, hkey, rfl, hbs⟩ := ovnLbVipInitExplicit_iff.1 h
  have hvip : N.ipAddressAndPortFromLbKey (ovnLbVipFormat (N.vipOf vip port backends)) =
    some (vip, port) :=
    ipAddressAndPortFromLbKey_withPort (lt_of_accepts (N.accepts_iff.1 hkey))
  have hmade : ∀ backend ∈ backends, ∃ token,
      N.ovnLbBackendInitExplicit (N.vipOf vip port backends) token = .ok backend :=
        fun backend hb =>
    ((mem_backends_iff hbs).1 hb).imp fun _ => And.right
  have htexts : (tokens (N.ovnLbVipBackendsFormat (N.vipOf vip port backends))).map
      (N.ovnLbBackendInitExplicit (N.vipOf vip port backends)) = backends.map fun backend =>
        N.ovnLbBackendInitExplicit (N.vipOf vip port backends)
          (N.backendFormat (N.vipOf vip port backends) backend) := by
    rw [tokens_ovnLbVipBackendsFormat hmade, map_map]
    rfl
  have hport : (N.vipOf vip port backends).portStr.isSome ↔ port ≠ 0 := by simp [vipOf, portStr]
  calc N.ovnLbVipInitExplicit _ _ = .ok _
      ↔ ∀ backend ∈ backends, N.ovnLbBackendInitExplicit (N.vipOf vip port backends)
          (N.backendFormat (N.vipOf vip port backends) backend) = .ok backend := by
        rw [← map_inj_left, ← htexts, ovnLbVipInitExplicit_iff]
        constructor
        · rintro ⟨_, _, _, hkey', heq, hbs'⟩
          obtain rfl := (LbVip.mk.inj heq).2.2.2.2.2
          exact hbs'
        · exact fun hbs' => ⟨vip, port, backends, hvip, rfl, hbs'⟩
    _ ↔ ∀ backend ∈ backends, ¬(N.family vip = .inet6 ∧ port ≠ 0 ∧ backend.ip = N.in6addrAny) := by
        refine forall₂_congr fun backend hb => ?_
        obtain ⟨_, htoken⟩ := hmade backend hb
        rw [ovnLbBackendInitExplicit_backendFormat htoken, hport]
        rfl
    _ ↔ ¬N.UnspecifiedBackend lbKey lbValue := by
        rw [unspecifiedBackend_iff hkey hbs]
        grind

end Inet

/-! ## Some addresses -/

inductive Host
  | vip4 | web4 | any6 | vip6 | web6
  deriving DecidableEq

namespace Host

def all : List Host := [vip4, web4, any6, vip6, web6]

def family : Host → Family
  | vip4 | web4 => .inet
  | any6 | vip6 | web6 => .inet6

def text : Host → Text
  | vip4 => ['1', '0', '.', '0', '.', '0', '.', '1', '0']
  | web4 => ['1', '0', '.', '0', '.', '0', '.', '2']
  | any6 => [':', ':']
  | vip6 => ['f', 'd', '0', '0', ':', ':', '1', '0']
  | web6 => ['f', 'd', '0', '0', ':', ':', '2']

/-- What stands before the port. -/
def beforePort (a : Host) : Text :=
  match a.family with
  | .inet => a.text ++ [':']
  | .inet6 => '[' :: a.text ++ [']', ':']

def portAfter (start t : Text) : Option ℕ :=
  if t = start ++ t.drop start.length ∧
      IsPort (t.drop start.length) (Nat.ofDigitChars 10 (t.drop start.length) 0) then
    some (Nat.ofDigitChars 10 (t.drop start.length) 0)
  else none

def read (t : Text) (a : Host) : Option (Host × ℕ) :=
  if t = a.text then some (a, 0) else (portAfter a.beforePort t).map (a, ·)

theorem portAfter_eq_some {start t : Text} {port : ℕ} :
    portAfter start t = some port ↔ ∃ u, t = start ++ u ∧ IsPort u port := by
  unfold portAfter
  constructor
  · intro h
    split at h
    · next ht =>
      cases h
      exact ⟨_, ht⟩
    · cases h
  · rintro ⟨u, rfl, hu⟩
    rw [drop_left, hu.2.2.1, if_pos ⟨rfl, hu⟩]

theorem read_eq_some {t : Text} {a : Host} {r : Host × ℕ} : read t a = some r ↔
    t = a.text ∧ r = (a, 0) ∨ ∃ u port, t = a.beforePort ++ u ∧ IsPort u port ∧ r = (a, port) := by
  have hne : ∀ u, a.beforePort ++ u ≠ a.text := by
    intro u h
    have hlen := congrArg length h
    cases hf : a.family with
    | inet => simp [beforePort, hf] at hlen
    | inet6 =>
      simp only [beforePort, hf, length_append, length_cons] at hlen
      omega
  unfold read
  split
  · next ht =>
    subst ht
    simp [fun u => (hne u).symm, eq_comm]
  · next ht =>
    simp only [ht, false_and, false_or, Option.map_eq_some_iff, portAfter_eq_some]
    grind

theorem accepts_iff_read {t : Text} {a : Host} {port : ℕ} :
    Accepts family (fun t a => t = text a) t (a, port) ↔ read t a = some (a, port) := by
  rw [read_eq_some]
  constructor
  · rintro (rfl | ⟨rfl, hf, hu⟩ | ⟨rfl, hf, hu⟩)
    · exact .inl ⟨rfl, rfl⟩
    · exact .inr ⟨_, _, by simp [beforePort, hf], hu, rfl⟩
    · exact .inr ⟨_, _, by simp [beforePort, hf], hu, rfl⟩
  · rintro (⟨rfl, ⟨⟩⟩ | ⟨u, _, rfl, hu, ⟨⟩⟩)
    · exact .address rfl
    · cases hf : a.family with
      | inet =>
        have h : Accepts family (fun t a => t = text a) (a.text ++ ':' :: u) (a, port) :=
          .inet rfl hf hu
        simpa [beforePort, hf] using h
      | inet6 =>
        have h : Accepts family (fun t a => t = text a) ('[' :: a.text ++ ']' :: ':' :: u)
          (a, port) :=
          .inet6 rfl hf hu
        simpa [beforePort, hf] using h

/-- No address is the beginning of another one. -/
theorem eq_of_read {t : Text} {a b : Host} {r r' : Host × ℕ} (ha : read t a = some r)
    (hb : read t b = some r') : a = b := by
  have hstart : ∀ {a r}, read t a = some r → a.text <+: t.dropWhile (· = '[') := by
    intro a r h
    obtain ⟨rfl, -⟩ | ⟨u, _, rfl, -, -⟩ := read_eq_some.1 h
    · cases a <;> decide
    · cases a <;> simp [beforePort, family, text]
  obtain h | h := prefix_or_prefix_of_prefix (hstart ha) (hstart hb)
  · revert h
    cases a <;> cases b <;> decide
  · revert h
    cases a <;> cases b <;> decide

end Host

/-- The notation of these addresses. -/
def hosts : Inet Host where
  family := Host.family
  IsText t a := t = a.text
  format := Host.text
  isText_format _ := rfl
  format_ne_nil a := by cases a <;> decide
  comma_notMem_format a := by cases a <;> decide
  bracket_notMem_format a := by cases a <;> decide
  in6addrAny := .any6
  ipAddressAndPortFromLbKey t := Host.all.findSome? (Host.read t)
  accepts_iff := by
    rintro t ⟨a, port⟩
    rw [Host.accepts_iff_read]
    constructor
    · intro h
      obtain ⟨b, -, hb⟩ := exists_of_findSome?_eq_some h
      obtain ⟨-, ⟨⟩⟩ | ⟨_, _, -, -, ⟨⟩⟩ := Host.read_eq_some.1 hb
      all_goals exact hb
    · intro h
      cases hfind : Host.all.findSome? (Host.read t) with
      | none => exact absurd (findSome?_eq_none_iff.1 hfind a (by cases a <;> decide)) (by simp [h])
      | some r =>
        obtain ⟨b, -, hb⟩ := exists_of_findSome?_eq_some hfind
        obtain rfl := Host.eq_of_read h hb
        rw [← hb, h]

theorem ovnLbVipInitExplicit_format_hosts : ∃ lbVip,
    hosts.ovnLbVipInitExplicit "[fd00::10]:80".toList "[fd00::2]:8080,[fd00::10]:8081".toList =
      .ok lbVip ∧
      hosts.ovnLbVipInitExplicit (Inet.ovnLbVipFormat lbVip) (hosts.ovnLbVipBackendsFormat lbVip) =
        .ok lbVip := by
  refine ⟨_, rfl,
    (Inet.ovnLbVipInitExplicit_format (show hosts.ovnLbVipInitExplicit "[fd00::10]:80".toList
    "[fd00::2]:8080,[fd00::10]:8081".toList = .ok _ from rfl)).2 ?_⟩
  rintro ⟨-, token, htoken, port, hany⟩
  have htokens : tokens "[fd00::2]:8080,[fd00::10]:8081".toList =
      ["[fd00::2]:8080".toList, "[fd00::10]:8081".toList] := by decide
  rw [htokens, mem_cons, mem_singleton] at htoken
  obtain rfl | rfl := htoken <;> cases hany

/-- The backend `[::]:8080` is written `:::8080`, which is not accepted. -/
theorem not_ovnLbVipInitExplicit_format : ∃ lbVip,
    hosts.ovnLbVipInitExplicit "[fd00::10]:80".toList "[fd00::2]:8080,[::]:8080".toList =
      .ok lbVip ∧
      ∃ e, hosts.ovnLbVipInitExplicit (Inet.ovnLbVipFormat lbVip)
        (hosts.ovnLbVipBackendsFormat lbVip) = .error e :=
  ⟨_, rfl, _, rfl⟩

end Ovn.LbText
