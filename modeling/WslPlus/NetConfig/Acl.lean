import Mathlib.Data.List.Induction
import WslPlus.Lib.Segments
import WslPlus.NetConfig.Commands

/-!
# Firewall rules

A line of the firewall file is meant to have an action, a protocol, a source range and
maybe a port, and to become one rule. The commands are read back here, once as the
shell reads them and then as `iptables` and `nft` read their arguments, and compared
with the lines that have the documented form.
-/

namespace WslPlus.NetConfig

open List Shell

inductive Protocol where
  | tcp
  | udp
deriving DecidableEq

inductive Verdict where
  | accept
  | drop
deriving DecidableEq

/-- A range of IPv4 addresses. -/
structure Cidr where
  a : Fin 256
  b : Fin 256
  c : Fin 256
  d : Fin 256
  length : Fin 33
deriving DecidableEq

structure FirewallRule where
  proto : Protocol
  source : Cidr
  dport : Option (Fin 65536)
  verdict : Verdict
deriving DecidableEq

def parseDecimal (bound : Nat) (text : List Char) : Option (Fin bound) :=
  if text ≠ [] ∧ text.all Char.isDigit ∧ (text.head? = some '0' → text.length = 1) then
    if h : Nat.ofDigitChars 10 text 0 < bound then some ⟨_, h⟩ else none
  else none

def parseCidr (text : List Char) : Option Cidr :=
  match text.splitOn '/' with
  | [address, length] =>
    match address.splitOn '.' with
    | [a, b, c, d] => do
      let a ← parseDecimal 256 a
      let b ← parseDecimal 256 b
      let c ← parseDecimal 256 c
      let d ← parseDecimal 256 d
      let length ← parseDecimal 33 length
      some ⟨a, b, c, d, length⟩
    | _ => none
  | _ => none

def parseProtocol (text : List Char) : Option Protocol :=
  if text = "tcp".toList then some .tcp else if text = "udp".toList then some .udp else none

def parseVerdict (text : List Char) : Option Verdict :=
  if text = "accept".toList then some .accept else if text = "drop".toList then some .drop else none

def parsePort (text : List Char) : Option (Fin 65536) := parseDecimal 65536 text

def fileLines : List Char → List Char → List (List Char)
  | line, [] => if line = [] then [] else [line]
  | line, c :: rest =>
    if c = '\n' then (line ++ [c]) :: fileLines [] rest else fileLines (line ++ [c]) rest

/-- The rule of a line `<accept|drop> <tcp|udp> <srcCIDR> [dport]`. -/
def documentedRule (line : List Char) : Option FirewallRule := do
  let (action, s) ← readToken line
  let (proto, s) ← readToken s
  let (src, s) ← readToken s
  let verdict ← parseVerdict action.text
  let proto ← parseProtocol proto.text
  let source ← parseCidr src.text
  match readToken s with
  | none => some ⟨proto, source, none, verdict⟩
  | some (port, s) =>
    let port ← parsePort port.text
    if (readToken s).isSome then none else some ⟨proto, source, some port, verdict⟩

def lineRule (line : List Char) : Option FirewallRule :=
  if 255 < line.length then none else documentedRule line

def documentedRules (content : List Char) : List FirewallRule := (fileLines [] content).filterMap lineRule

def argumentWords : List Char → List Item → Option (List (List Char))
  | [], [] => some []
  | word, .char c :: items => argumentWords (word ++ [c]) items
  | word, .wordEnd :: items => (argumentWords [] items).map (word :: ·)
  | _, _ => none

/-- The packets a rule matches, as far as its arguments have been read. -/
structure Matches where
  proto : Option Protocol := none
  source : Option Cidr := none
  dport : Option (Protocol × Fin 65536) := none

def Matches.rule (m : Matches) (verdict : Verdict) : Option FirewallRule := do
  let proto ← m.proto
  let source ← m.source
  match m.dport with
  | none => some ⟨proto, source, none, verdict⟩
  | some (p, port) => if p = proto then some ⟨proto, source, some port, verdict⟩ else none

def iptablesMatch (m : Matches) (flag value : List Char) : Option Matches :=
  if flag = "-p".toList then (parseProtocol value).map fun p => { m with proto := some p }
  else if flag = "-s".toList then (parseCidr value).map fun s => { m with source := some s }
  else if flag = "--dport".toList then do
    let p ← m.proto
    let port ← parsePort value
    some { m with dport := some (p, port) }
  else none

def iptablesVerdict (target : List Char) : Option Verdict :=
  if target = "ACCEPT".toList then some .accept
  else if target = "DROP".toList then some .drop else none

/-- The matches and the target of an `iptables` rule. -/
def iptablesRule : Matches → List (List Char) → Option FirewallRule
  | m, [flag, value] => if flag = "-j".toList then (iptablesVerdict value).bind m.rule else none
  | m, flag :: value :: rest => (iptablesMatch m flag value).bind fun m => iptablesRule m rest
  | _, _ => none

/-- A match of an `nft` rule, which names a header or meta field and its value. -/
def nftMatch (m : Matches) (header field value : List Char) : Option Matches :=
  if header = "ip".toList ∧ field = "saddr".toList then
    (parseCidr value).map fun s => { m with source := some s }
  else if (header = "ip".toList ∧ field = "protocol".toList) ∨
      (header = "meta".toList ∧ field = "l4proto".toList) then
    (parseProtocol value).map fun p => { m with proto := some p }
  else if field = "dport".toList then do
    let p ← parseProtocol header
    let port ← parsePort value
    some { m with proto := some p, dport := some (p, port) }
  else none

/-- The matches of an `nft` rule and the verdict behind them. -/
def nftRule : Matches → List (List Char) → Option FirewallRule
  | m, [verdict] => (parseVerdict verdict).bind m.rule
  | m, header :: field :: value :: rest => (nftMatch m header field value).bind fun m => nftRule m rest
  | _, _ => none

def commandRule (useNft : Bool) (words : List (List Char)) : Option FirewallRule :=
  if useNft then
    if words.take 6 = ["nft".toList, "add".toList, "rule".toList, "inet".toList, "filter".toList,
        "input".toList] then nftRule {} (words.drop 6)
    else none
  else
    if words.take 3 = ["iptables".toList, "-A".toList, "INPUT".toList] then
      iptablesRule {} (words.drop 3)
    else none

def statedRule (useNft : Bool) (line : List Char) : Option FirewallRule := do
  let items ← readAs line
  let words ← argumentWords [] items
  commandRule useNft words

example : statedRule true "nft add rule inet filter input ip saddr 10.0.0.0/8 tcp dport 22 drop".toList =
    some ⟨.tcp, ⟨10, 0, 0, 0, 8⟩, some 22, .drop⟩ := by
  decide +kernel

def Ordinary (c : Char) : Prop := isPlain c = true ∧ c ≠ '#' ∧ c ≠ '~' ∧ c ≠ '\x00'

instance (c : Char) : Decidable (Ordinary c) := inferInstanceAs (Decidable (_ ∧ _))

variable {text : List Char}

theorem ordinary_of_all (h : text.all (fun c => decide (Ordinary c)) = true) : ∀ c ∈ text, Ordinary c :=
  fun c hc => of_decide_eq_true (all_eq_true.mp h c hc)

theorem plain_of_ordinary (h : ∀ c ∈ text, Ordinary c) : Plain text := by
  refine ⟨?_, ?_, fun c hc => (h c hc).1⟩
  · intro hhead
    exact (h _ (mem_of_mem_head? hhead)).2.1 rfl
  · intro hhead
    exact (h _ (mem_of_mem_head? hhead)).2.2.1 rfl

theorem ordinary_of_isDigit {c : Char} (hc : c.isDigit = true) : Ordinary c := by
  refine ⟨isPlain_of_isDigit hc, ?_, ?_, ?_⟩ <;> rintro rfl <;> exact absurd hc (by decide)

theorem ordinary_of_parseDecimal {bound : Nat} {n : Fin bound}
    (h : parseDecimal bound text = some n) : ∀ c ∈ text, Ordinary c := by
  unfold parseDecimal at h
  split at h
  · next hdigits =>
    intro c hc
    exact ordinary_of_isDigit (all_eq_true.mp hdigits.2.1 c hc)
  · cases h

theorem ordinary_intercalate {sep : Char} {parts : List (List Char)} (hsep : Ordinary sep)
    (hparts : ∀ part ∈ parts, ∀ c ∈ part, Ordinary c) : ∀ c ∈ [sep].intercalate parts, Ordinary c := by
  induction parts using List.reverseRecOn with
  | nil => simp
  | append_singleton parts part ih =>
    have hpart := hparts part (by simp)
    have hrest := ih fun q hq => hparts q (by simp [hq])
    by_cases hne : parts = []
    · subst hne
      simpa using hpart
    · rw [Segments.intercalate_concat hne]
      intro c hc
      rcases mem_append.mp hc with hc | hc
      · exact hrest c hc
      rcases mem_append.mp hc with hc | hc
      · rw [mem_singleton.mp hc]
        exact hsep
      · exact hpart c hc

theorem ordinary_of_splitOn (sep : Char) (hsep : Ordinary sep)
    (hparts : ∀ part ∈ text.splitOn sep, ∀ c ∈ part, Ordinary c) : ∀ c ∈ text, Ordinary c := by
  have h := ordinary_intercalate hsep hparts
  rwa [intercalate_splitOn] at h

theorem ordinary_of_parseCidr {source : Cidr} (h : parseCidr text = some source) : ∀ c ∈ text, Ordinary c := by
  unfold parseCidr at h
  split at h
  · next address length hslash =>
    split at h
    · next a b c d hdots =>
      simp only [Option.bind_eq_bind, Option.bind_eq_some_iff] at h
      obtain ⟨_, ha, _, hb, _, hc, _, hd, _, hlen, -⟩ := h
      have haddress : ∀ c ∈ address, Ordinary c := by
        apply ordinary_of_splitOn '.' (by decide)
        rw [hdots]
        simp only [forall_mem_cons]
        exact ⟨ordinary_of_parseDecimal ha, ordinary_of_parseDecimal hb, ordinary_of_parseDecimal hc,
          ordinary_of_parseDecimal hd, by simp⟩
      apply ordinary_of_splitOn '/' (by decide)
      rw [hslash]
      simp only [forall_mem_cons]
      exact ⟨haddress, ordinary_of_parseDecimal hlen, by simp⟩
    · cases h
  · cases h

theorem ordinary_of_parseProtocol {p : Protocol} (h : parseProtocol text = some p) :
    ∀ c ∈ text, Ordinary c := by
  unfold parseProtocol at h
  split at h
  · next htext => exact ordinary_of_all (by rw [htext]; decide)
  · split at h
    · next htext => exact ordinary_of_all (by rw [htext]; decide)
    · cases h

theorem ordinary_of_parseVerdict {v : Verdict} (h : parseVerdict text = some v) : ∀ c ∈ text, Ordinary c := by
  unfold parseVerdict at h
  split at h
  · next htext => exact ordinary_of_all (by rw [htext]; decide)
  · split at h
    · next htext => exact ordinary_of_all (by rw [htext]; decide)
    · cases h

theorem readToken_none {s : List Char} (h : readToken s = none) : ∀ c ∈ s, isSpace c = true := by
  simp only [readToken] at h
  split at h
  · next hword =>
    apply dropWhile_eq_nil_iff.mp
    cases hd : s.dropWhile isSpace with
    | nil => rfl
    | cons c rest =>
      have hc : isSpace c = false := by
        have hne : s.dropWhile isSpace ≠ [] := by simp [hd]
        have hhead := head_dropWhile_not isSpace hne
        simpa [hd] using hhead
      rw [hd, takeWhile_cons_of_pos (by simp [hc])] at hword
      cases hword
  · cases h

theorem readToken_some {s rest : List Char} {w : Token} (h : readToken s = some (w, rest)) :
    ∃ blanks, (∀ c ∈ blanks, isSpace c = true) ∧ s = blanks ++ (w.text ++ rest) := by
  simp only [readToken] at h
  split at h
  · cases h
  · obtain ⟨rfl, rfl⟩ := Prod.mk.inj (Option.some.inj h)
    refine ⟨s.takeWhile isSpace, fun c hc => mem_takeWhile_imp hc, ?_⟩
    simp only [takeWhile_append_dropWhile]

theorem nul_not_mem_of_readToken {s rest : List Char} {w : Token} (h : readToken s = some (w, rest))
    (hw : ∀ c ∈ w.text, Ordinary c) (hrest : '\x00' ∉ rest) : '\x00' ∉ s := by
  obtain ⟨blanks, hblanks, rfl⟩ := readToken_some h
  intro hmem
  rcases mem_append.mp hmem with hmem | hmem
  · exact absurd (hblanks _ hmem) (by decide)
  rcases mem_append.mp hmem with hmem | hmem
  · exact (hw _ hmem).2.2.2 rfl
  · exact hrest hmem

theorem nul_not_mem_of_readToken_none {s : List Char} (h : readToken s = none) : '\x00' ∉ s := by
  intro hmem
  exact absurd (readToken_none h _ hmem) (by decide)

variable {line : List Char}

theorem lineText_of_nul_not_mem (h : '\x00' ∉ line) : lineText line = line := by
  apply takeWhile_eq_self_iff.mpr
  intro c hc
  simp only [ne_eq, decide_not, Bool.not_eq_true', decide_eq_false_iff_not]
  rintro rfl
  exact h hc

structure Documented (line : List Char) (rule : AclRule) (r : FirewallRule) : Prop where
  parsed : parseAcl (lineText line) = some rule
  verdict : parseVerdict rule.action.text = some r.verdict
  proto : parseProtocol rule.proto.text = some r.proto
  source : parseCidr rule.src.text = some r.source
  dport : ∀ port, rule.dport = some port → ∃ n, parsePort port.text = some n ∧ r.dport = some n
  noPort : rule.dport = none → r.dport = none

variable {r : FirewallRule}

theorem exists_documented (h : documentedRule line = some r) : ∃ rule, Documented line rule r := by
  simp only [documentedRule, Option.bind_eq_bind, Option.bind_eq_some_iff, Prod.exists] at h
  obtain ⟨action, s₁, haction, proto, s₂, hproto, src, s₃, hsrc, v, hv, p, hp, source, hsource, h⟩ := h
  have hnul : '\x00' ∉ s₃ → '\x00' ∉ line := by
    intro hrest
    apply nul_not_mem_of_readToken haction (ordinary_of_parseVerdict hv)
    apply nul_not_mem_of_readToken hproto (ordinary_of_parseProtocol hp)
    exact nul_not_mem_of_readToken hsrc (ordinary_of_parseCidr hsource) hrest
  cases hport : readToken s₃ with
  | none =>
    simp only [hport, Option.some.injEq] at h
    subst h
    refine ⟨⟨action, proto, src, none⟩, ?_, hv, hp, hsource, by simp, fun _ => rfl⟩
    rw [lineText_of_nul_not_mem (hnul (nul_not_mem_of_readToken_none hport))]
    simp [parseAcl, readOptional, haction, hproto, hsrc, hport]
  | some port =>
    obtain ⟨port, s₄⟩ := port
    simp only [hport, Option.bind_eq_some_iff] at h
    obtain ⟨n, hn, h⟩ := h
    split at h
    · cases h
    · next hlast =>
      simp only [Option.some.injEq] at h
      subst h
      have hrest : '\x00' ∉ s₃ := by
        apply nul_not_mem_of_readToken hport (ordinary_of_parseDecimal hn)
        exact nul_not_mem_of_readToken_none (by simpa using hlast)
      refine ⟨⟨action, proto, src, some port⟩, ?_, hv, hp, hsource, ?_, by simp⟩
      · rw [lineText_of_nul_not_mem (hnul hrest)]
        simp [parseAcl, readOptional, haction, hproto, hsrc, hport]
      · rintro _ ⟨⟩
        exact ⟨n, hn, rfl⟩

theorem argumentWords_literal (word text : List Char) (items : List Item) :
    argumentWords word (literal text ++ items) = argumentWords (word ++ text) items := by
  induction text generalizing word with
  | nil => simp [literal]
  | cons c text ih =>
    have hcons : literal (c :: text) ++ items = .char c :: (literal text ++ items) := rfl
    rw [hcons]
    simp only [argumentWords]
    rw [ih, append_assoc, singleton_append]

theorem argumentWords_command (words : List (List Char)) (items : List Item) :
    argumentWords [] (command words ++ items) = (argumentWords [] items).map (words ++ ·) := by
  induction words with
  | nil => simp
  | cons word words ih =>
    rw [command_cons, append_assoc, argumentWords_literal, nil_append, append_assoc,
      singleton_append]
    simp only [argumentWords]
    rw [ih, Option.map_map]
    rfl

section Iptables

variable {m m' : Matches} {flag value next : List Char} {rest : List (List Char)}

theorem iptablesRule_match (h : iptablesMatch m flag value = some m') :
    iptablesRule m (flag :: value :: next :: rest) = iptablesRule m' (next :: rest) := by
  simp only [iptablesRule, h, Option.bind_some]

theorem iptablesMatch_proto {p : Protocol} (h : parseProtocol value = some p) :
    iptablesMatch m "-p".toList value = some { m with proto := some p } := by
  simp only [iptablesMatch, if_true, h, Option.map_some]

theorem iptablesMatch_source {source : Cidr} (h : parseCidr value = some source) :
    iptablesMatch m "-s".toList value = some { m with source := some source } := by
  have hflag : "-s".toList ≠ "-p".toList := by decide
  simp only [iptablesMatch, if_neg hflag, if_true, h, Option.map_some]

theorem iptablesMatch_dport {p : Protocol} {n : Fin 65536} (hp : m.proto = some p)
    (h : parsePort value = some n) :
    iptablesMatch m "--dport".toList value = some { m with dport := some (p, n) } := by
  have hproto : "--dport".toList ≠ "-p".toList := by decide
  have hsrc : "--dport".toList ≠ "-s".toList := by decide
  simp only [iptablesMatch, if_neg hproto, if_neg hsrc, if_true, hp, h, Option.bind_eq_bind,
    Option.bind_some]

theorem iptablesRule_target {v : Verdict} (h : iptablesVerdict value = some v) :
    iptablesRule m ["-j".toList, value] = m.rule v := by
  simp only [iptablesRule, if_true, h, Option.bind_some]

end Iptables

variable {rule : AclRule}

section

variable (h : Documented line rule r)
include h

theorem iptablesVerdict_of_documented :
    iptablesVerdict (if rule.accepts then "ACCEPT".toList else "DROP".toList) = some r.verdict := by
  have hverdict := h.verdict
  unfold parseVerdict at hverdict
  split at hverdict
  · next haccept =>
    have haccepts : rule.accepts = true := decide_eq_true haccept
    rw [haccepts, ← Option.some.inj hverdict]
    rfl
  · next haccept =>
    have haccepts : rule.accepts = false := decide_eq_false haccept
    split at hverdict
    · rw [haccepts, ← Option.some.inj hverdict]
      rfl
    · cases hverdict

theorem Documented.fieldsHarmless : rule.FieldsHarmless := by
  refine ⟨plain_of_ordinary (ordinary_of_parseProtocol h.proto),
    plain_of_ordinary (ordinary_of_parseCidr h.source), ?_⟩
  intro port hport
  obtain ⟨n, hn, -⟩ := h.dport port hport
  exact plain_of_ordinary (ordinary_of_parseDecimal hn)

theorem Documented.commandRule : commandRule false rule.iptablesWords = some r := by
  have hverdict := iptablesVerdict_of_documented h
  obtain ⟨proto, source, dport, verdict⟩ := r
  cases hport : rule.dport with
  | none =>
    obtain rfl : dport = none := h.noPort hport
    simp only [AclRule.iptablesWords, hport]
    change iptablesRule {} ["-p".toList, _, "-s".toList, _, "-j".toList, _] = _
    rw [iptablesRule_match (iptablesMatch_proto h.proto), iptablesRule_match (iptablesMatch_source h.source),
      iptablesRule_target hverdict]
    rfl
  | some port =>
    obtain ⟨n, hn, hdport⟩ := h.dport port hport
    obtain rfl : dport = some n := hdport
    simp only [AclRule.iptablesWords, hport]
    change iptablesRule {} ["-p".toList, _, "-s".toList, _, "--dport".toList, _, "-j".toList, _] = _
    rw [iptablesRule_match (iptablesMatch_proto h.proto), iptablesRule_match (iptablesMatch_source h.source),
      iptablesRule_match (iptablesMatch_dport rfl hn), iptablesRule_target hverdict]
    simp [Matches.rule]

theorem Documented.statedRule : statedRule false (rule.commandLine false) = some r := by
  have hread : readAs (rule.commandLine false) = some (command rule.iptablesWords) :=
    (rule.readAs_iff false).mpr h.fieldsHarmless
  have hwords : argumentWords [] (command rule.iptablesWords) = some rule.iptablesWords := by
    have hcommand := argumentWords_command rule.iptablesWords []
    simpa [argumentWords] using hcommand
  simp only [NetConfig.statedRule, hread, hwords, Option.bind_eq_bind, Option.bind_some, h.commandRule]

end

theorem nftMatch_verdict {header : List Char} (hheader : header = "accept".toList ∨ header = "drop".toList)
    (m : Matches) (field value : List Char) : nftMatch m header field value = none := by
  have hip : header ≠ "ip".toList := by rcases hheader with rfl | rfl <;> decide
  have hmeta : header ≠ "meta".toList := by rcases hheader with rfl | rfl <;> decide
  have hproto : parseProtocol header = none := by rcases hheader with rfl | rfl <;> decide
  simp only [nftMatch, hip, hmeta, hproto, false_and, or_self, if_false, Option.bind_eq_bind,
    Option.bind_none, ite_self]

theorem nftRule_verdict {header : List Char} (hheader : header = "accept".toList ∨ header = "drop".toList)
    (rest : List (List Char)) : nftRule {} (header :: rest) = none := by
  cases rest with
  | nil => rcases hheader with rfl | rfl <;> rfl
  | cons field rest =>
    cases rest with
    | nil => rfl
    | cons value rest => simp only [nftRule, nftMatch_verdict hheader, Option.bind_none]

theorem commandRule_nft (rest : List (List Char)) :
    commandRule true ("nft".toList :: "add".toList :: "rule".toList :: "inet".toList :: "filter".toList ::
      "input".toList :: rest) = nftRule {} rest := if_pos rfl

theorem statedRule_nft (rule : AclRule) : statedRule true (rule.commandLine true) = none := by
  obtain ⟨hfirst, -⟩ := forall_mem_cons.mp rule.nftPieces_wellFormed
  have hline : rule.commandLine true = rule.nftPieces.flatMap Piece.text := rule.nftCommandLine_eq
  have hverdict : (if rule.accepts then "accept" else "drop").toList = "accept".toList ∨
      (if rule.accepts then "accept" else "drop").toList = "drop".toList := by
    cases rule.accepts <;> decide
  rw [statedRule, hline, AclRule.nftPieces, flatMap_cons]
  generalize List.flatMap Piece.text _ = W
  generalize (if rule.accepts then "accept" else "drop") = verdict at hfirst hverdict
  have hread : readAs ((fixedWords ["nft", "add", "rule", "inet", "filter", "input", verdict]).text ++ W) =
      (readAs W).map (command _ ++ ·) := Reads.readAs hfirst W
  rw [hread]
  cases readAs W with
  | none => rfl
  | some items =>
    simp only [Option.map_some, Option.bind_eq_bind, Option.bind_some, argumentWords_command]
    cases argumentWords [] items with
    | none => rfl
    | some rest =>
      simp only [Option.map_some, Option.bind_some, map_cons, map_nil, cons_append,
        nil_append]
      rw [commandRule_nft, nftRule_verdict hverdict]

theorem fgetsLines_nil (size : Nat) : fgetsLines size [] [] = [] := rfl

/-- The invariant: `line` has been read of the current line, with the given pieces cut from it
and the rest in the buffer. -/
theorem fgetsLines_fileLines_from (size : Nat) (content line buffer : List Char) (pieces : List (List Char))
    (h : ∀ t, fgetsLines size [] (line ++ t) = pieces ++ fgetsLines size buffer t) :
    pieces ++ fgetsLines size buffer content = (fileLines line content).flatMap (fgetsLines size []) := by
  induction content generalizing line buffer pieces with
  | nil =>
    have hline := h []
    rw [append_nil] at hline
    rw [← hline, fileLines]
    by_cases hempty : line = []
    · subst hempty
      rfl
    · rw [if_neg hempty, flatMap_singleton]
  | cons c rest ih =>
    by_cases hc : c = '\n'
    · have hrest := ih [] [] [] fun _ => rfl
      have hend : ∀ t, fgetsLines size buffer ('\n' :: t) = (buffer ++ ['\n']) :: fgetsLines size [] t := by
        intro t
        simp [fgetsLines]
      have hline := h ['\n']
      rw [hend, fgetsLines_nil] at hline
      subst hc
      rw [fileLines, if_pos rfl, flatMap_cons, hline, ← hrest, hend]
      simp
    · rw [fileLines, if_neg hc]
      by_cases hfull : buffer.length + 2 = size
      · have hcut : ∀ t, fgetsLines size buffer (c :: t) = (buffer ++ [c]) :: fgetsLines size [] t := by
          intro t
          simp [fgetsLines, hfull]
        have hnext := ih (line ++ [c]) [] (pieces ++ [buffer ++ [c]]) (by
          intro t
          rw [append_assoc, singleton_append, h, hcut]
          simp)
        rw [← hnext, hcut]
        simp
      · have hadd : ∀ t, fgetsLines size buffer (c :: t) = fgetsLines size (buffer ++ [c]) t := by
          intro t
          simp [fgetsLines, hfull, hc]
        have hnext := ih (line ++ [c]) (buffer ++ [c]) pieces (by
          intro t
          rw [append_assoc, singleton_append, h, hadd])
        rw [← hnext, hadd]

theorem fgetsLines_eq (size : Nat) (content : List Char) :
    fgetsLines size [] content = (fileLines [] content).flatMap (fgetsLines size []) := by
  have h := fgetsLines_fileLines_from size content [] [] [] fun _ => rfl
  simpa using h

theorem newline_last_of_mem_fileLines {content line l : List Char} (hline : '\n' ∉ line)
    (hl : l ∈ fileLines line content) : l ≠ [] ∧ '\n' ∉ l.dropLast := by
  induction content generalizing line with
  | nil =>
    rw [fileLines] at hl
    split at hl
    · cases hl
    · next hne =>
      rw [mem_singleton.mp hl]
      exact ⟨hne, fun hmem => hline (dropLast_subset _ hmem)⟩
  | cons c rest ih =>
    rw [fileLines] at hl
    split at hl
    · rcases mem_cons.mp hl with rfl | hl
      · simpa using hline
      · exact ih (by simp) hl
    · next hc =>
      refine ih ?_ hl
      simpa [hline] using Ne.symm hc

theorem fgetsLines_of_short {size : Nat} (buffer : List Char) {t : List Char} (hne : buffer ++ t ≠ [])
    (hlen : buffer.length + t.length < size) (ht : '\n' ∉ t.dropLast) :
    fgetsLines size buffer t = [buffer ++ t] := by
  induction t generalizing buffer with
  | nil =>
    rw [append_nil] at hne ⊢
    rw [fgetsLines, if_neg hne]
  | cons c t ih =>
    rw [length_cons] at hlen
    by_cases hlast : t = []
    · subst hlast
      simp [fgetsLines]
    · have hdrop : (c :: t).dropLast = c :: t.dropLast := dropLast_cons_of_ne_nil hlast
      rw [hdrop, mem_cons, not_or] at ht
      have hpos := length_pos_iff.mpr hlast
      have hnext : (c = '\n' || buffer.length + 2 = size : Bool) = false := by
        simp [Ne.symm ht.1]
        omega
      have hrest := ih (buffer ++ [c]) (by simp) (by simp; omega) ht.2
      simpa [fgetsLines, hnext] using hrest

/-- The commands that `ApplyAclRules` runs. -/
def applyAclRules (useNft : Bool) (content : List Char) : List (List Char) :=
  (rulesOf 256 parseAcl content).map (AclRule.commandLine useNft)

theorem applyAclRules_eq (useNft : Bool) (content : List Char) :
    applyAclRules useNft content = (fileLines [] content).flatMap (applyAclRules useNft) := by
  rw [applyAclRules, rulesOf, fgetsLines_eq, filterMap_flatMap, map_flatMap]
  rfl

def NoRule (text : List Char) : Prop :=
  ∀ piece ∈ fgetsLines 256 [] text, parseAcl (lineText piece) = none

theorem applyAclRules_eq_nil_iff (useNft : Bool) (text : List Char) :
    applyAclRules useNft text = [] ↔ NoRule text := by
  rw [applyAclRules, map_eq_nil_iff, rulesOf, filterMap_eq_nil_iff]
  rfl

theorem applyAclRules_documented {content line : List Char} (hline : line ∈ fileLines [] content)
    (h : lineRule line = some r) :
    ∃ rule, Documented line rule r ∧ ∀ useNft, applyAclRules useNft line = [rule.commandLine useNft] := by
  unfold lineRule at h
  split at h
  · cases h
  · next hshort =>
    obtain ⟨rule, hrule⟩ := exists_documented h
    obtain ⟨hne, hlast⟩ := newline_last_of_mem_fileLines (by simp) hline
    have hpieces : fgetsLines 256 [] line = [line] :=
      fgetsLines_of_short [] hne (by simp; omega) hlast
    refine ⟨rule, hrule, ?_⟩
    intro useNft
    simp [applyAclRules, rulesOf, hpieces, hrule.parsed]

section Lists

variable {α β γ : Type} {f : α → List β} {g : α → Option γ} {back : β → Option γ}

theorem length_filterMap_le {xs : List α} (hg : ∀ a ∈ xs, ∀ r, g a = some r → f a ≠ []) :
    (xs.filterMap g).length ≤ (xs.flatMap f).length := by
  induction xs with
  | nil => simp
  | cons a xs ih =>
    have hrest := ih fun b hb => hg b (mem_cons_of_mem _ hb)
    rw [flatMap_cons, length_append]
    cases hga : g a with
    | none =>
      rw [filterMap_cons_none hga]
      omega
    | some r =>
      have hpos := length_pos_iff.mpr (hg a mem_cons_self r hga)
      rw [filterMap_cons_some hga, length_cons]
      omega

/-- If each input that asks for a result gives one output that says it, the outputs say exactly
the results that are asked for if and only if the other inputs give no output. -/
theorem map_flatMap_eq_iff {xs : List α} (hg : ∀ a ∈ xs, ∀ r, g a = some r → ∃ b, f a = [b] ∧ back b = some r) :
    (xs.flatMap f).map back = (xs.filterMap g).map some ↔ ∀ a ∈ xs, g a = none → f a = [] := by
  induction xs with
  | nil => simp
  | cons a xs ih =>
    obtain ⟨hga, hgxs⟩ := forall_mem_cons.mp hg
    rw [flatMap_cons, map_append, forall_mem_cons]
    cases ha : g a with
    | some r =>
      obtain ⟨b, hb, hback⟩ := hga r ha
      rw [filterMap_cons_some ha, hb]
      simp [hback, ih hgxs]
    | none =>
      rw [filterMap_cons_none ha]
      constructor
      · intro h
        have hlen := congrArg List.length h
        have hle : (xs.filterMap g).length ≤ (xs.flatMap f).length := by
          apply length_filterMap_le
          intro b hb r hr
          obtain ⟨c, hc, -⟩ := hgxs b hb r hr
          simp [hc]
        simp only [length_append, length_map] at hlen
        have hnil : f a = [] := length_eq_zero_iff.mp (by omega)
        refine ⟨fun _ => hnil, (ih hgxs).mp ?_⟩
        simpa [hnil] using h
      · rintro ⟨hnil, hrest⟩
        simpa [hnil rfl] using (ih hgxs).mpr hrest

end Lists

def StatesDocumented (useNft : Bool) (content : List Char) : Prop :=
  (applyAclRules useNft content).map (statedRule useNft) = (documentedRules content).map some

theorem statesDocumented_iptables (content : List Char) :
    StatesDocumented false content ↔ ∀ line ∈ fileLines [] content, lineRule line = none → NoRule line := by
  rw [StatesDocumented, applyAclRules_eq, documentedRules, map_flatMap_eq_iff]
  · simp only [applyAclRules_eq_nil_iff]
  · intro line hline r hr
    obtain ⟨rule, hrule, hcommands⟩ := applyAclRules_documented hline hr
    exact ⟨_, hcommands false, hrule.statedRule⟩

theorem documentedRules_eq_nil {content : List Char} (h : ∀ line ∈ fileLines [] content, NoRule line) :
    documentedRules content = [] := by
  apply filterMap_eq_nil_iff.mpr
  intro line hline
  cases hr : lineRule line with
  | none => rfl
  | some r =>
    obtain ⟨rule, -, hcommands⟩ := applyAclRules_documented hline hr
    have hnil := (applyAclRules_eq_nil_iff true line).mpr (h line hline)
    rw [hcommands true] at hnil
    cases hnil

theorem statesDocumented_nft (content : List Char) :
    StatesDocumented true content ↔ ∀ line ∈ fileLines [] content, NoRule line := by
  have hnorule : applyAclRules true content = [] ↔ ∀ line ∈ fileLines [] content, NoRule line := by
    rw [applyAclRules_eq, flatMap_eq_nil_iff]
    simp only [applyAclRules_eq_nil_iff]
  rw [← hnorule]
  constructor
  · intro h
    cases hcommands : rulesOf 256 parseAcl content with
    | nil => simp [applyAclRules, hcommands]
    | cons rule rules =>
      -- the first command states no rule, where one is expected
      rw [StatesDocumented, applyAclRules, hcommands, map_cons, map_cons, statedRule_nft] at h
      cases hdocumented : documentedRules content with
      | nil => simp [hdocumented] at h
      | cons r rs => simp [hdocumented] at h
  · intro h
    rw [StatesDocumented, h, documentedRules_eq_nil (hnorule.mp h)]
    rfl

/-- With `nft` no line may have three words, and with `iptables` no line that is not of the
documented form. -/
theorem statesDocumented_iff (useNft : Bool) (content : List Char) :
    StatesDocumented useNft content ↔
      ∀ line ∈ fileLines [] content, useNft = true ∨ lineRule line = none → NoRule line := by
  cases useNft with
  | false => simpa using statesDocumented_iptables content
  | true => simpa using statesDocumented_nft content

/-- With `nft` the verdict stands before the match, and with `iptables` a comment becomes a rule. -/
theorem acl_lines_misstated :
    applyAclRules true "drop tcp 0.0.0.0/0 22\n".toList =
      ["nft add rule inet filter input drop tcp saddr 0.0.0.0/0 ct state new tcp dport 22 ".toList] ∧
    documentedRules "drop tcp 0.0.0.0/0 22\n".toList = [⟨.tcp, ⟨0, 0, 0, 0, 0⟩, some 22, .drop⟩] ∧
    ¬ StatesDocumented true "drop tcp 0.0.0.0/0 22\n".toList ∧
    applyAclRules false "# drop everything else\n".toList =
      ["iptables -A INPUT -p drop -s everything --dport else -j DROP".toList] ∧
    ¬ StatesDocumented false "# drop everything else\n".toList := by
  unfold StatesDocumented
  decide +kernel

end WslPlus.NetConfig
