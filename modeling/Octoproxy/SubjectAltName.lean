import Octoproxy.Lists
import Octoproxy.Metric

namespace Octoproxy
open Lists
set_option autoImplicit true

inductive SanType where
  | dnsName (name : String)
  | ipAddress (ip : IpAddr)
deriving DecidableEq

/-- `str::to_uppercase`; `upper` is the table of the Unicode standard. -/
def toUppercase (upper : Char → List Char) (s : List Char) : List Char := s.flatMap upper

section
variable (upper : Char → List Char) (parseIp : String → Except String IpAddr)

/-- The match on the type of an entry. The library's `IpAddr::from_str` is `parseIp`. -/
def parseSanPair (kind value : List Char) : Except String SanType :=
  if toUppercase upper kind = "DNS".toList then
    if value.isEmpty then .error "Dns name is empty" else .ok (.dnsName (.ofList value))
  else if toUppercase upper kind = "IP".toList then
    match parseIp (.ofList value) with
    | .ok addr => .ok (.ipAddress addr)
    | .error x => .error ("Failed to parse ip address: " ++ x)
  else .error ("subject alt name type currently not support: " ++ .ofList kind)

def parseSanEntry (sanStr : String) : Except String SanType :=
  match (sanStr.toList.splitOn ':').take 2 with
  | [kind, value] => parseSanPair upper parseIp kind value
  | _ => .error ("subject alt name should be in pair: " ++ sanStr)

def parseSanLoop : List SanType → List String → Except String (List SanType)
  | subjectAltNames, [] => .ok subjectAltNames
  | subjectAltNames, sanStr :: rest =>
    (parseSanEntry upper parseIp sanStr).bind fun san =>
      parseSanLoop (subjectAltNames ++ [san]) rest

def parseSan (subjectAltNamesStr : List String) : Except String (List SanType) :=
  if subjectAltNamesStr.isEmpty then .error "at least provide one SAN"
  else parseSanLoop upper parseIp [] subjectAltNamesStr

/-- A text is `caps` up to letter case: the capitals of its characters, in their order. -/
inductive UpToCase : List Char → List Char → Prop where
  | nil : UpToCase [] []
  | cons : UpToCase s caps → UpToCase (c :: s) (upper c ++ caps)

/-- What a pair of a type and a value stands for. -/
inductive Denotes (kind value : List Char) : SanType → Prop where
  | dns : UpToCase upper kind "DNS".toList → value ≠ [] → ':' ∉ value →
      Denotes kind value (.dnsName (.ofList value))
  | ip : UpToCase upper kind "IP".toList → parseIp (.ofList value) = .ok addr →
      Denotes kind value (.ipAddress addr)

/-- An entry `T:V` where `V` is everything after the first colon. -/
def Whole (s : String) (san : SanType) : Prop :=
  ∃ kind value, s.toList = kind ++ ':' :: value ∧ ':' ∉ kind ∧ Denotes upper parseIp kind value san

/-- The text before the first colon, and what follows it up to the next colon or the end. -/
def CutsTo (s kind value : List Char) : Prop :=
  ':' ∉ kind ∧ ':' ∉ value ∧
    (s = kind ++ ':' :: value ∨ ∃ rest, s = kind ++ ':' :: (value ++ ':' :: rest))

/-- The entry with a value that ends at the second colon. -/
def Cut (s : String) (san : SanType) : Prop :=
  ∃ kind value, CutsTo s.toList kind value ∧ Denotes upper parseIp kind value san

/-- A second colon makes no difference: no name stands before it, and the address is the same
with and without the rest. -/
def SecondColonHarmless (s : String) : Prop :=
  ∀ kind value rest, s.toList = kind ++ ':' :: (value ++ ':' :: rest) → ':' ∉ kind → ':' ∉ value →
    (UpToCase upper kind "DNS".toList → value = []) ∧
    (UpToCase upper kind "IP".toList → ∀ addr, parseIp (.ofList value) = .ok addr ↔
      parseIp (.ofList (value ++ ':' :: rest)) = .ok addr)

end

theorem splitOn_colon (h : ':' ∉ kind) (value : List Char) :
    (kind ++ ':' :: value).splitOn ':' = kind :: value.splitOn ':' :=
  List.splitOn_append_cons_self_of_not_mem h value

theorem colon_inj (h : ':' ∉ kind) (h' : ':' ∉ kind')
    (he : kind ++ ':' :: value = kind' ++ ':' :: value') : kind = kind' ∧ value = value' := by
  have hs := congrArg (List.splitOn ':') he
  rw [splitOn_colon h, splitOn_colon h'] at hs
  obtain rfl := (List.cons.inj hs).1
  exact ⟨rfl, (List.cons.inj (List.append_cancel_left he)).2⟩

theorem cutsTo_iff {s kind value : List Char} :
    CutsTo s kind value ↔ (s.splitOn ':').take 2 = [kind, value] := by
  constructor
  · rintro ⟨hk, hv, rfl | ⟨rest, rfl⟩⟩
    · rw [splitOn_colon hk, List.splitOn_eq_singleton hv]
      rfl
    · rw [splitOn_colon hk, splitOn_colon hv]
      rfl
  · intro h
    by_cases hs : ':' ∈ s
    · obtain ⟨kind', value', rfl, hk⟩ := List.eq_append_cons_of_mem hs
      rw [splitOn_colon hk] at h
      by_cases hv : ':' ∈ value'
      · obtain ⟨value', rest, rfl, hv'⟩ := List.eq_append_cons_of_mem hv
        rw [splitOn_colon hv'] at h
        cases h
        exact ⟨hk, hv', .inr ⟨rest, rfl⟩⟩
      · rw [List.splitOn_eq_singleton hv] at h
        cases h
        exact ⟨hk, hv, .inl rfl⟩
    · rw [List.splitOn_eq_singleton hs] at h
      cases h

section
variable {upper : Char → List Char} {parseIp : String → Except String IpAddr}

/-- The test of the code finds what is the same up to letter case. -/
theorem upToCase_iff : UpToCase upper s caps ↔ toUppercase upper s = caps := by
  constructor
  · intro h
    induction h with
    | nil => rfl
    | cons _ ih => rw [toUppercase, List.flatMap_cons, ← toUppercase, ih]
  · rintro rfl
    induction s with
    | nil => exact .nil
    | cons c s ih => exact .cons ih

/-- On ASCII text it is the letter case of ASCII. -/
theorem upToCase_ascii (h : ∀ c ∈ s, upper c = [c.toUpper]) :
    UpToCase upper s caps ↔ s.map Char.toUpper = caps := by
  rw [upToCase_iff, toUppercase, List.flatMap_congr h]
  exact Eq.congr_left (List.flatMap_pure_eq_map Char.toUpper s)

theorem Denotes.unique (h : Denotes upper parseIp kind value san)
    (h' : Denotes upper parseIp kind value san') : san = san' := by
  cases h with
  | dns hk _ _ =>
    cases h' with
    | dns _ _ _ => rfl
    | ip hk' _ => cases (upToCase_iff.1 hk).symm.trans (upToCase_iff.1 hk')
  | ip hk hp =>
    cases h' with
    | dns hk' _ _ => cases (upToCase_iff.1 hk).symm.trans (upToCase_iff.1 hk')
    | ip _ hp' =>
      cases hp.symm.trans hp'
      rfl

theorem parseSanPair_iff (hv : ':' ∉ value) :
    parseSanPair upper parseIp kind value = .ok san ↔ Denotes upper parseIp kind value san := by
  constructor
  · intro h
    unfold parseSanPair at h
    split at h
    · rename_i hk
      split at h
      · cases h
      · rename_i hne
        cases h
        exact .dns (upToCase_iff.2 hk) (fun he => hne (by rw [he]; rfl)) hv
    · split at h
      · rename_i hk
        split at h
        · rename_i addr hp
          cases h
          exact .ip (upToCase_iff.2 hk) hp
        · cases h
      · cases h
  · intro h
    unfold parseSanPair
    cases h with
    | dns hk hne _ => rw [if_pos (upToCase_iff.1 hk), if_neg (by rwa [List.isEmpty_iff])]
    | ip hk hp =>
      have hip := upToCase_iff.1 hk
      have hdns : toUppercase upper kind ≠ "DNS".toList := by
        rw [hip]
        decide
      rw [if_neg hdns, if_pos hip, hp]

theorem parseSanEntry_iff {s : String} :
    parseSanEntry upper parseIp s = .ok san ↔ Cut upper parseIp s san := by
  constructor
  · intro h
    unfold parseSanEntry at h
    split at h
    · rename_i kind value ht
      have hcut := cutsTo_iff.2 ht
      exact ⟨kind, value, hcut, (parseSanPair_iff hcut.2.1).1 h⟩
    · cases h
  · rintro ⟨kind, value, hcut, hd⟩
    unfold parseSanEntry
    rw [cutsTo_iff.1 hcut]
    exact (parseSanPair_iff hcut.2.1).2 hd

theorem parseSanLoop_iff {l : List String} :
    parseSanLoop upper parseIp sans l = .ok res ↔
      ∃ rest, res = sans ++ rest ∧ List.Forall₂ (Cut upper parseIp) l rest := by
  induction l generalizing sans with
  | nil =>
    rw [parseSanLoop]
    constructor
    · intro h
      cases h
      exact ⟨[], (List.append_nil res).symm, .nil⟩
    · rintro ⟨rest, rfl, ⟨⟩⟩
      rw [List.append_nil]
  | cons s l ih =>
    rw [parseSanLoop]
    constructor
    · intro h
      cases he : parseSanEntry upper parseIp s with
      | error e =>
        rw [he] at h
        cases h
      | ok san =>
        rw [he] at h
        obtain ⟨rest, rfl, hrest⟩ := ih.1 h
        exact ⟨san :: rest, by simp, .cons (parseSanEntry_iff.1 he) hrest⟩
    · rintro ⟨rest, rfl, hrest⟩
      cases hrest with
      | cons hs hl =>
        rename_i san rest
        rw [parseSanEntry_iff.2 hs]
        exact ih.2 ⟨rest, by simp, hl⟩

theorem parseSan_iff {l : List String} :
    parseSan upper parseIp l = .ok res ↔ l ≠ [] ∧ List.Forall₂ (Cut upper parseIp) l res := by
  cases l with
  | nil => exact ⟨nofun, fun h => absurd rfl h.1⟩
  | cons s l =>
    have hne : s :: l ≠ [] := List.cons_ne_nil s l
    rw [parseSan, if_neg (by simp), parseSanLoop_iff]
    simp only [List.nil_append, exists_eq_left', hne, ne_eq, not_false_eq_true, true_and]

theorem Whole.unique {s : String} (h : Whole upper parseIp s san)
    (h' : Whole upper parseIp s san') : san = san' := by
  obtain ⟨kind, value, hs, hk, hd⟩ := h
  obtain ⟨kind', value', hs', hk', hd'⟩ := h'
  obtain ⟨rfl, rfl⟩ := colon_inj hk hk' (hs.symm.trans hs')
  exact hd.unique hd'

theorem Cut.unique {s : String} (h : Cut upper parseIp s san) (h' : Cut upper parseIp s san') :
    san = san' := by
  rw [← parseSanEntry_iff] at h h'
  cases h.symm.trans h'
  rfl

theorem whole_iff {s : String} (hs : s.toList = kind ++ ':' :: value) (hk : ':' ∉ kind) :
    Whole upper parseIp s san ↔ Denotes upper parseIp kind value san := by
  constructor
  · rintro ⟨kind', value', hs', hk', hd⟩
    obtain ⟨rfl, rfl⟩ := colon_inj hk hk' (hs.symm.trans hs')
    exact hd
  · intro hd
    exact ⟨kind, value, hs, hk, hd⟩

theorem cut_iff {s : String} (hcut : CutsTo s.toList kind value) :
    Cut upper parseIp s san ↔ Denotes upper parseIp kind value san := by
  constructor
  · rintro ⟨kind', value', hcut', hd⟩
    cases (cutsTo_iff.1 hcut).symm.trans (cutsTo_iff.1 hcut')
    exact hd
  · intro hd
    exact ⟨kind, value, hcut, hd⟩

theorem denotes_rest_iff :
    Denotes upper parseIp kind (value ++ ':' :: rest) san ↔
      ∃ addr, san = .ipAddress addr ∧ UpToCase upper kind "IP".toList ∧
        parseIp (.ofList (value ++ ':' :: rest)) = .ok addr := by
  constructor
  · intro h
    cases h with
    | dns _ _ hv => exact absurd (List.mem_append_right value List.mem_cons_self) hv
    | ip hk hp => exact ⟨_, rfl, hk, hp⟩
  · rintro ⟨addr, rfl, hk, hp⟩
    exact .ip hk hp

theorem denotes_agree_iff (hv : ':' ∉ value) :
    (∀ san, Denotes upper parseIp kind value san ↔
        Denotes upper parseIp kind (value ++ ':' :: rest) san) ↔
      (UpToCase upper kind "DNS".toList → value = []) ∧
      (UpToCase upper kind "IP".toList → ∀ addr, parseIp (.ofList value) = .ok addr ↔
        parseIp (.ofList (value ++ ':' :: rest)) = .ok addr) := by
  constructor
  · intro h
    constructor
    · intro hk
      by_contra hne
      obtain ⟨addr, he, -⟩ := denotes_rest_iff.1 ((h _).1 (.dns hk hne hv))
      cases he
    · intro hk addr
      constructor
      · intro hp
        obtain ⟨addr', he, -, hp'⟩ := denotes_rest_iff.1 ((h _).1 (.ip hk hp))
        cases he
        exact hp'
      · intro hp
        cases (h _).2 (denotes_rest_iff.2 ⟨addr, rfl, hk, hp⟩) with
        | ip _ hp' => exact hp'
  · rintro ⟨hdns, hip⟩ san
    rw [denotes_rest_iff]
    constructor
    · intro hd
      cases hd with
      | dns hk hne _ => exact absurd (hdns hk) hne
      | ip hk hp => exact ⟨_, rfl, hk, (hip hk _).1 hp⟩
    · rintro ⟨addr, rfl, hk, hp⟩
      exact .ip hk ((hip hk addr).2 hp)

/-- The two readings of an entry differ at most by a second colon. -/
theorem cut_whole_agree_iff (s : String) :
    (∀ san, Cut upper parseIp s san ↔ Whole upper parseIp s san) ↔
      SecondColonHarmless upper parseIp s := by
  by_cases hs : ':' ∈ s.toList
  · obtain ⟨kind, value, hs, hk⟩ := List.eq_append_cons_of_mem hs
    by_cases hv : ':' ∈ value
    · obtain ⟨value, rest, rfl, hv'⟩ := List.eq_append_cons_of_mem hv
      have hcut : CutsTo s.toList kind value := ⟨hk, hv', .inr ⟨rest, hs⟩⟩
      have hagree : (∀ san, Cut upper parseIp s san ↔ Whole upper parseIp s san) ↔
          ∀ san, Denotes upper parseIp kind value san ↔
            Denotes upper parseIp kind (value ++ ':' :: rest) san :=
        forall_congr' fun san => by rw [cut_iff hcut, whole_iff hs hk]
      rw [hagree, denotes_agree_iff hv']
      constructor
      · intro h kind' value' rest' hs' hk' hv''
        obtain ⟨rfl, he⟩ := colon_inj hk hk' (hs.symm.trans hs')
        obtain ⟨rfl, rfl⟩ := colon_inj hv' hv'' he
        exact h
      · intro h
        exact h kind value rest hs hk hv'
    · -- With a single colon both readings take the same pair.
      have hcut : CutsTo s.toList kind value := ⟨hk, hv, .inl hs⟩
      constructor
      · intro _ kind' value' rest' hs' hk' _
        obtain ⟨-, rfl⟩ := colon_inj hk hk' (hs.symm.trans hs')
        exact absurd (List.mem_append_right value' List.mem_cons_self) hv
      · intro _ san
        rw [cut_iff hcut, whole_iff hs hk]
  · have hno (kind value : List Char) : s.toList ≠ kind ++ ':' :: value := by
      intro he
      rw [he] at hs
      exact hs (List.mem_append_right kind List.mem_cons_self)
    constructor
    · intro _ kind value rest hs' _ _
      exact absurd hs' (hno _ _)
    · intro _ san
      constructor
      · rintro ⟨kind, value, ⟨_, _, hs' | ⟨rest, hs'⟩⟩, _⟩
        · exact absurd hs' (hno _ _)
        · exact absurd hs' (hno _ _)
      · rintro ⟨kind, value, hs', _⟩
        exact absurd hs' (hno _ _)

/-- A list of subject alternative names is parsed as its grammar says exactly when second colons
make no difference to its entries, or some entry is malformed in either reading. -/
theorem parse_san_exact_iff (upper : Char → List Char) (parseIp : String → Except String IpAddr)
    (l : List String) :
    (∀ res, parseSan upper parseIp l = .ok res ↔
        l ≠ [] ∧ List.Forall₂ (Whole upper parseIp) l res) ↔
      (∀ s ∈ l, SecondColonHarmless upper parseIp s) ∨
        (∃ s ∈ l, ∀ san, ¬ Cut upper parseIp s san) ∧
          ∃ s ∈ l, ∀ san, ¬ Whole upper parseIp s san := by
  have hagree : (∀ s ∈ l, SecondColonHarmless upper parseIp s) ↔
      ∀ s ∈ l, ∀ san, Cut upper parseIp s san ↔ Whole upper parseIp s san :=
    forall₂_congr fun s _ => (cut_whole_agree_iff s).symm
  have hlists : (∀ res, parseSan upper parseIp l = .ok res ↔
        l ≠ [] ∧ List.Forall₂ (Whole upper parseIp) l res) ↔
      ∀ res, List.Forall₂ (Cut upper parseIp) l res ↔ List.Forall₂ (Whole upper parseIp) l res := by
    apply forall_congr'
    intro res
    rw [parseSan_iff]
    cases l with
    | nil => simp
    | cons s l => simp
  rw [hagree, hlists]
  exact forall₂_congr_iff Cut.unique Whole.unique

end

/-- The addresses of the example; every other text is refused. -/
def parseLoopback (s : String) : Except String IpAddr :=
  if s = "::1" then .ok (.v6 1)
  else if s = "127.0.0.1" then .ok (.v4 0x7f000001)
  else .error "invalid IP address syntax"

/-- An IPv6 address cannot be given, since its value is taken to end at its first colon. -/
theorem ipv6_san_refused :
    ¬ ∀ (l : List String) (res : List SanType),
      parseSan (fun c => [c.toUpper]) parseLoopback l = .ok res ↔
        l ≠ [] ∧ List.Forall₂ (Whole (fun c => [c.toUpper]) parseLoopback) l res := by
  intro h
  have hwhole : Whole (fun c => [c.toUpper]) parseLoopback "IP:::1" (.ipAddress (.v6 1)) := by
    refine ⟨['I', 'P'], [':', ':', '1'], rfl, by decide,
      .ip ((upToCase_ascii fun _ _ => rfl).2 rfl) ?_⟩
    rfl
  have hok := (h ["IP:::1"] [.ipAddress (.v6 1)]).2
    ⟨List.cons_ne_nil _ _, .cons hwhole .nil⟩
  have herr : parseSan (fun c => [c.toUpper]) parseLoopback ["IP:::1"] =
      .error "Failed to parse ip address: invalid IP address syntax" := by
    decide
  cases herr.symm.trans hok

end Octoproxy
