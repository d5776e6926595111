import WslPlus.NetConfig.ConfigFiles

/-!
# Commands run for the network configuration files

Each line that is accepted becomes one command line for the shell. The commands are
meant to be the fixed ones of the feature, with the fields of the line as words or
parts of words. The interfaces stand between quotes and the other fields do not, so
that a line can name commands of its own.
-/

namespace WslPlus.NetConfig

open List Shell Shell.Lexer

def command (words : List (List Char)) : List Item := simple (words.map literal)

@[simp] theorem command_nil : command [] = [] := rfl

@[simp] theorem command_cons (w : List Char) (ws : List (List Char)) :
    command (w :: ws) = literal w ++ ([Item.wordEnd] ++ command ws) := by
  simp [command, simple]

def discardErrors : List Item :=
  literal "2".toList ++ [Item.wordEnd, Item.op '>' false] ++ literal "/dev/null".toList ++ [Item.wordEnd]

def orElse : List Item := [.op '|' false, .op '|' true]

def andThen : List Item := [.op '&' false, .op '&' true]

def setUp (iface : List Char) : List Item :=
  command ["ip".toList, "link".toList, "set".toList, iface, "up".toList]

def QosRule.rate (r : QosRule) : List Char := decimal r.rateMbps ++ "mbit".toList

def QosRule.qdisc (r : QosRule) (verb : String) : List Item :=
  command ["tc".toList, "qdisc".toList, verb.toList, "dev".toList, r.iface.text, "root".toList, "tbf".toList,
    "rate".toList, r.rate, "burst".toList, "1024kbit".toList,
    "limit".toList, "2048kbit".toList]

def QosRule.intended (r : QosRule) : List Item :=
  r.qdisc "add" ++ discardErrors ++ orElse ++ r.qdisc "replace"

def AclRule.nftWords (r : AclRule) : List (List Char) :=
  ["nft".toList, "add".toList, "rule".toList, "inet".toList, "filter".toList, "input".toList,
    if r.accepts then "accept".toList else "drop".toList, r.proto.text, "saddr".toList, r.src.text] ++
  match r.dport with
  | none => []
  | some d => ["ct".toList, "state".toList, "new".toList, "tcp".toList, "dport".toList, d.text]

def AclRule.iptablesWords (r : AclRule) : List (List Char) :=
  ["iptables".toList, "-A".toList, "INPUT".toList, "-p".toList, r.proto.text, "-s".toList, r.src.text] ++
  (match r.dport with
  | none => []
  | some d => ["--dport".toList, d.text]) ++
  ["-j".toList, if r.accepts then "ACCEPT".toList else "DROP".toList]

def AclRule.words (useNft : Bool) (r : AclRule) : List (List Char) :=
  if useNft then r.nftWords else r.iptablesWords

def AclRule.intended (useNft : Bool) (r : AclRule) : List Item := command (r.words useNft)

def Tunnel.link (t : Tunnel) (verb : String) : List Item :=
  command ["ip".toList, "link".toList, verb.toList, t.vxIface, "type".toList, "vxlan".toList, "id".toList,
    decimal t.vni, "dev".toList, t.iface.text, "remote".toList, t.remote.text, "dstport".toList,
    "4789".toList]

def Tunnel.intended (t : Tunnel) : List Item :=
  t.link "add" ++ discardErrors ++ orElse ++ t.link "replace" ++ andThen ++ setUp t.vxIface

def StaticAddress.intended (a : StaticAddress) : List Item :=
  command ["ip".toList, "addr".toList, "replace".toList, a.ip.text, "dev".toList, a.iface.text] ++
    andThen ++ setUp a.iface.text ++
  match a.gw with
  | none => []
  | some gw =>
    andThen ++ command ["ip".toList, "route".toList, "replace".toList, "default".toList, "via".toList,
      gw.text, "dev".toList, a.iface.text]

def VlanTag.intended (v : VlanTag) : List Item :=
  command ["ip".toList, "link".toList, "add".toList, "link".toList, v.iface.text, "name".toList,
    v.vlanIface, "type".toList, "vlan".toList, "id".toList, v.id.text] ++ andThen ++ setUp v.vlanIface

theorem Token.noBlank (w : Token) : ∀ c ∈ w.text, c ≠ ' ' ∧ c ≠ '\t' ∧ c ≠ '\n' := by
  intro c hc
  have hspace := w.noSpace c hc
  refine ⟨?_, ?_, ?_⟩ <;> rintro rfl <;> exact absurd hspace (by decide)

theorem isPlain_of_isDigit {c : Char} (hc : c.isDigit = true) : isPlain c = true := by
  have hspecial : "'\"\\$`() \t;&|<>\n*?[".toList.any Char.isDigit = false := by decide
  by_contra hplain
  have hmem : c ∈ "'\"\\$`() \t;&|<>\n*?[".toList := by
    simpa only [isPlain, Bool.not_eq_true', Bool.not_eq_false, contains_iff_mem] using hplain
  exact any_eq_false.mp hspecial c hmem hc

theorem isPlain_decimal (n : Nat) : ∀ c ∈ decimal n, isPlain c = true := by
  intro c hc
  exact isPlain_of_isDigit (Nat.isDigit_of_mem_toDigits (by decide) (by decide) hc)

theorem plain_decimal_append (n : Nat) {text : List Char} (htext : text.all isPlain = true) :
    Plain (decimal n ++ text) := by
  have hhead : ∃ c cs, decimal n = c :: cs := exists_cons_of_ne_nil Nat.toDigits_ne_nil
  obtain ⟨c, cs, hcs⟩ := hhead
  have hdigit : c.isDigit = true := by
    apply Nat.isDigit_of_mem_toDigits (b := 10) (by decide) (by decide)
    change c ∈ decimal n
    rw [hcs]
    exact mem_cons_self
  refine ⟨?_, ?_, ?_⟩
  · rw [hcs]
    rintro ⟨⟩
    cases hdigit
  · rw [hcs]
    rintro ⟨⟩
    cases hdigit
  · intro d hd
    rcases mem_append.mp hd with hd | hd
    · exact isPlain_decimal n d hd
    · exact all_eq_true.mp htext d hd

theorem quote_not_mem_of_plain {text : List Char} (h : ∀ c ∈ text, isPlain c = true) : '\'' ∉ text := by
  intro hmem
  exact absurd (h _ hmem) (by decide)

theorem Token.quoted_wellFormed (w : Token) : (Piece.quoted w.text).WellFormed :=
  fun hmem => (w.noBlank _ hmem).1 rfl

theorem Token.bare_wellFormed (w : Token) : (Piece.bare w.text).WellFormed := ⟨w.nonempty, w.noBlank⟩

theorem bare_wellFormed {text : List Char} (hne : text ≠ []) (h : Plain text) :
    (Piece.bare text).WellFormed := by
  refine ⟨hne, ?_⟩
  intro c hc
  have hplain := isPlain_iff.mp (h.2.2 c hc)
  exact ⟨hplain.2.2.2.2.2.2.2.1, hplain.2.2.2.2.2.2.2.2.1, hplain.2.2.2.2.2.2.2.2.2.2.2.2.2.2.1⟩

def fixedWords (ws : List String) : Piece :=
  .fixed (ws.flatMap fun w => w.toList ++ [' ']) (command (ws.map String.toList))

@[simp] theorem fixedWords_harmless (ws : List String) : (fixedWords ws).Harmless := trivial

theorem fixedWords_wellFormed {ws : List String} (h : ∀ w ∈ ws, w.toList ≠ [] ∧ Plain w.toList) :
    (fixedWords ws).WellFormed := by
  induction ws with
  | nil => exact ⟨rfl, fun _ => rfl⟩
  | cons w ws ih =>
    obtain ⟨⟨hne, hplain⟩, hws⟩ := forall_mem_cons.mp h
    have hw := reads_bare hne hplain
    have happ := hw.append (ih hws)
    simpa [fixedWords, Piece.WellFormed, literal] using happ

def discardPiece : Piece := .fixed "2>/dev/null ".toList discardErrors

def orElsePiece : Piece := .fixed "|| ".toList orElse

def andThenPiece : Piece := .fixed "&& ".toList andThen

@[simp] theorem discardPiece_harmless : discardPiece.Harmless := trivial

@[simp] theorem orElsePiece_harmless : orElsePiece.Harmless := trivial

@[simp] theorem andThenPiece_harmless : andThenPiece.Harmless := trivial

theorem discardPiece_wellFormed : discardPiece.WellFormed :=
  reads_of (by rfl) (by decide +kernel) (by rfl)

theorem orElsePiece_wellFormed : orElsePiece.WellFormed :=
  reads_of (by rfl) (by rfl) (by rfl)

theorem andThenPiece_wellFormed : andThenPiece.WellFormed :=
  reads_of (by rfl) (by rfl) (by rfl)

theorem QosRule.plain_rate (r : QosRule) : Plain r.rate := plain_decimal_append _ (by decide)

theorem QosRule.rate_ne_nil (r : QosRule) : r.rate ≠ [] := by simp [rate]

def QosRule.qdiscPieces (r : QosRule) (verb : String) : List Piece :=
  [fixedWords ["tc", "qdisc", verb, "dev"], .quoted r.iface.text, fixedWords ["root", "tbf", "rate"],
    .bare r.rate]

def QosRule.pieces (r : QosRule) : List Piece :=
  r.qdiscPieces "add" ++
    fixedWords ["burst", "1024kbit", "limit", "2048kbit"] :: discardPiece :: orElsePiece ::
    r.qdiscPieces "replace"

theorem QosRule.qdiscPieces_wellFormed (r : QosRule) {verb : String}
    (hverb : verb.toList ≠ [] ∧ Plain verb.toList) : ∀ p ∈ r.qdiscPieces verb, p.WellFormed := by
  have hwords : ∀ w ∈ ["tc", "qdisc", verb, "dev"], w.toList ≠ [] ∧ Plain w.toList := by
    simp only [forall_mem_cons]
    exact ⟨by decide, by decide, hverb, by decide, by simp⟩
  simp only [qdiscPieces, forall_mem_cons]
  exact ⟨fixedWords_wellFormed hwords, r.iface.quoted_wellFormed, fixedWords_wellFormed (by decide),
    bare_wellFormed r.rate_ne_nil r.plain_rate, by simp⟩

theorem QosRule.pieces_wellFormed (r : QosRule) : ∀ p ∈ r.pieces, p.WellFormed := by
  simp only [pieces, forall_mem_append, forall_mem_cons]
  exact ⟨r.qdiscPieces_wellFormed (by decide), fixedWords_wellFormed (by decide),
    discardPiece_wellFormed, orElsePiece_wellFormed, r.qdiscPieces_wellFormed (by decide)⟩

theorem QosRule.readAs_iff (r : QosRule) : readAs r.commandLine = some r.intended ↔ '\'' ∉ r.iface.text := by
  have hline : r.commandLine = r.pieces.flatMap Piece.text ++ "burst 1024kbit limit 2048kbit".toList := by
    simp only [pieces, qdiscPieces, rate, flatMap_cons, flatMap_nil, Piece.text,
      append_assoc, cons_append, nil_append]
    rfl
  have hintended : r.intended = r.pieces.flatMap Piece.items ++
      command ["burst".toList, "1024kbit".toList, "limit".toList, "2048kbit".toList] := by
    simp only [intended, qdisc, pieces, qdiscPieces, fixedWords, discardPiece, orElsePiece, command_cons,
      command_nil, map_cons, map_nil, flatMap_cons, flatMap_nil, flatMap_append,
      Piece.items, append_assoc, nil_append]
  have hlast : readAs "burst 1024kbit limit 2048kbit".toList =
      some (command ["burst".toList, "1024kbit".toList, "limit".toList, "2048kbit".toList]) := by
    rfl
  rw [hline, hintended, readAs_pieces_iff r.pieces_wellFormed, and_iff_left hlast]
  simp [pieces, qdiscPieces, r.plain_rate]

def blankPiece : Piece := .fixed [' '] []

@[simp] theorem blankPiece_harmless : blankPiece.Harmless := trivial

theorem blankPiece_wellFormed : blankPiece.WellFormed := ⟨rfl, fun _ => rfl⟩

def AclRule.nftPieces (r : AclRule) : List Piece :=
  fixedWords ["nft", "add", "rule", "inet", "filter", "input", if r.accepts then "accept" else "drop"] ::
    .bare r.proto.text :: fixedWords ["saddr"] :: .bare r.src.text ::
    match r.dport with
    | none => []
    | some d => [fixedWords ["ct", "state", "new", "tcp", "dport"], .bare d.text]

theorem AclRule.nftPieces_wellFormed (r : AclRule) : ∀ p ∈ r.nftPieces, p.WellFormed := by
  simp only [nftPieces, forall_mem_cons]
  refine ⟨fixedWords_wellFormed ?_, r.proto.bare_wellFormed, fixedWords_wellFormed (by decide),
    r.src.bare_wellFormed, ?_⟩
  · cases r.accepts <;> decide
  · cases r.dport with
    | none => simp
    | some d =>
      simp only [forall_mem_cons]
      exact ⟨fixedWords_wellFormed (by decide), d.bare_wellFormed, by simp⟩

def AclRule.FieldsHarmless (r : AclRule) : Prop :=
  Plain r.proto.text ∧ Plain r.src.text ∧ ∀ d ∈ r.dport, Plain d.text

theorem AclRule.nftCommandLine_eq (r : AclRule) : r.nftCommandLine = r.nftPieces.flatMap Piece.text := by
  unfold nftCommandLine nftPieces
  cases r.accepts <;> cases r.dport <;>
    simp only [flatMap_cons, flatMap_nil, fixedWords, Piece.text, append_assoc,
      Bool.false_eq_true, if_true, if_false, append_nil]
  all_goals rfl

theorem AclRule.readAs_nft_iff (r : AclRule) :
    readAs r.nftCommandLine = some (command r.nftWords) ↔ r.FieldsHarmless := by
  have hline : r.nftCommandLine = r.nftPieces.flatMap Piece.text ++ [] := by
    rw [append_nil, nftCommandLine_eq]
  have hintended : command r.nftWords = r.nftPieces.flatMap Piece.items ++ [] := by
    unfold nftWords nftPieces
    cases r.accepts <;> cases r.dport <;>
      simp only [fixedWords, command_cons, command_nil, map_cons, map_nil, flatMap_cons,
        flatMap_nil, Piece.items, append_assoc, nil_append, cons_append,
        append_nil, Bool.false_eq_true, if_true, if_false]
  have hlast : readAs [] = some [] := rfl
  rw [hline, hintended, readAs_pieces_iff r.nftPieces_wellFormed, and_iff_left hlast]
  cases hd : r.dport <;> simp [nftPieces, FieldsHarmless, hd]

def AclRule.iptablesPieces (r : AclRule) : List Piece :=
  fixedWords ["iptables", "-A", "INPUT", "-p"] :: .bare r.proto.text :: fixedWords ["-s"] ::
    .bare r.src.text ::
    match r.dport with
    | none => [blankPiece]
    | some d => [fixedWords ["--dport"], .bare d.text]

theorem AclRule.iptablesPieces_wellFormed (r : AclRule) : ∀ p ∈ r.iptablesPieces, p.WellFormed := by
  simp only [iptablesPieces, forall_mem_cons]
  refine ⟨fixedWords_wellFormed (by decide), r.proto.bare_wellFormed, fixedWords_wellFormed (by decide),
    r.src.bare_wellFormed, ?_⟩
  cases r.dport with
  | none =>
    simp only [forall_mem_cons]
    exact ⟨blankPiece_wellFormed, by simp⟩
  | some d =>
    simp only [forall_mem_cons]
    exact ⟨fixedWords_wellFormed (by decide), d.bare_wellFormed, by simp⟩

theorem AclRule.readAs_iptables_iff (r : AclRule) :
    readAs r.iptablesCommandLine = some (command r.iptablesWords) ↔ r.FieldsHarmless := by
  have hline : r.iptablesCommandLine = r.iptablesPieces.flatMap Piece.text ++
      ("-j ".toList ++ if r.accepts then "ACCEPT".toList else "DROP".toList) := by
    unfold iptablesCommandLine iptablesPieces
    cases r.dport <;>
      simp only [flatMap_cons, flatMap_nil, fixedWords, blankPiece, Piece.text, append_assoc,
        nil_append]
    all_goals rfl
  have hintended : command r.iptablesWords = r.iptablesPieces.flatMap Piece.items ++
      command ["-j".toList, if r.accepts then "ACCEPT".toList else "DROP".toList] := by
    unfold iptablesWords iptablesPieces
    cases r.dport <;>
      simp only [fixedWords, blankPiece, command_cons, command_nil, map_cons, map_nil,
        flatMap_cons, flatMap_nil, Piece.items, append_assoc, nil_append,
        cons_append, append_nil]
  have hlast : readAs ("-j ".toList ++ if r.accepts then "ACCEPT".toList else "DROP".toList) =
      some (command ["-j".toList, if r.accepts then "ACCEPT".toList else "DROP".toList]) := by
    cases r.accepts <;> rfl
  rw [hline, hintended, readAs_pieces_iff r.iptablesPieces_wellFormed, and_iff_left hlast]
  cases hd : r.dport <;> simp [iptablesPieces, FieldsHarmless, hd]

theorem AclRule.readAs_iff (useNft : Bool) (r : AclRule) :
    readAs (r.commandLine useNft) = some (r.intended useNft) ↔ r.FieldsHarmless := by
  cases useNft with
  | false => exact r.readAs_iptables_iff
  | true => exact r.readAs_nft_iff

theorem Tunnel.plain_vni (t : Tunnel) : Plain (decimal t.vni) := by
  have hplain := plain_decimal_append t.vni all_nil
  rwa [append_nil] at hplain

theorem Tunnel.quoted_vxIface (t : Tunnel) : (Piece.quoted t.vxIface).WellFormed := by
  intro hmem
  rcases mem_append.mp hmem with hmem | hmem
  · exact (t.iface.noBlank _ hmem).1 rfl
  rcases mem_append.mp hmem with hmem | hmem
  · exact absurd hmem (by decide)
  · exact absurd (isPlain_decimal _ _ hmem) (by decide)

theorem Tunnel.quote_mem_vxIface (t : Tunnel) : '\'' ∈ t.vxIface ↔ '\'' ∈ t.iface.text := by
  have hvni : '\'' ∉ decimal t.vni := quote_not_mem_of_plain (isPlain_decimal _)
  simp [vxIface, hvni]

def Tunnel.linkPieces (t : Tunnel) (verb : String) : List Piece :=
  [fixedWords ["ip", "link", verb], .quoted t.vxIface, fixedWords ["type", "vxlan", "id"],
    .bare (decimal t.vni), fixedWords ["dev"], .quoted t.iface.text, fixedWords ["remote"],
    .bare t.remote.text, fixedWords ["dstport", "4789"]]

def Tunnel.pieces (t : Tunnel) : List Piece :=
  t.linkPieces "add" ++ discardPiece :: orElsePiece :: t.linkPieces "replace" ++
    [andThenPiece, fixedWords ["ip", "link", "set"], .quoted t.vxIface]

theorem Tunnel.linkPieces_wellFormed (t : Tunnel) {verb : String}
    (hverb : verb.toList ≠ [] ∧ Plain verb.toList) : ∀ p ∈ t.linkPieces verb, p.WellFormed := by
  have hwords : ∀ w ∈ ["ip", "link", verb], w.toList ≠ [] ∧ Plain w.toList := by
    simp only [forall_mem_cons]
    exact ⟨by decide, by decide, hverb, by simp⟩
  simp only [linkPieces, forall_mem_cons]
  exact ⟨fixedWords_wellFormed hwords, t.quoted_vxIface, fixedWords_wellFormed (by decide),
    bare_wellFormed Nat.toDigits_ne_nil t.plain_vni, fixedWords_wellFormed (by decide),
    t.iface.quoted_wellFormed, fixedWords_wellFormed (by decide), t.remote.bare_wellFormed,
    fixedWords_wellFormed (by decide), by simp⟩

theorem Tunnel.pieces_wellFormed (t : Tunnel) : ∀ p ∈ t.pieces, p.WellFormed := by
  simp only [pieces, forall_mem_append, forall_mem_cons]
  exact ⟨⟨t.linkPieces_wellFormed (by decide), discardPiece_wellFormed, orElsePiece_wellFormed,
    t.linkPieces_wellFormed (by decide)⟩, andThenPiece_wellFormed, fixedWords_wellFormed (by decide),
    t.quoted_vxIface, by simp⟩

theorem readAs_up : readAs "up".toList = some (command ["up".toList]) := by rfl

theorem Tunnel.readAs_iff (t : Tunnel) :
    readAs t.commandLine = some t.intended ↔ '\'' ∉ t.iface.text ∧ Plain t.remote.text := by
  have hline : t.commandLine = t.pieces.flatMap Piece.text ++ "up".toList := by
    simp only [pieces, linkPieces, flatMap_cons, flatMap_nil, Piece.text,
      append_assoc, cons_append, nil_append]
    rfl
  have hintended : t.intended = t.pieces.flatMap Piece.items ++ command ["up".toList] := by
    simp only [intended, link, setUp, pieces, linkPieces, fixedWords, discardPiece, orElsePiece,
      andThenPiece, command_cons, command_nil, map_cons, map_nil, flatMap_cons,
      flatMap_nil, flatMap_append, Piece.items, append_assoc, nil_append]
  rw [hline, hintended, readAs_pieces_iff t.pieces_wellFormed, and_iff_left readAs_up]
  simp only [pieces, linkPieces, forall_mem_append, forall_mem_cons, not_mem_nil,
    false_imp_iff, implies_true, fixedWords_harmless, discardPiece_harmless, orElsePiece_harmless,
    andThenPiece_harmless, Piece.harmless_quoted, Piece.harmless_bare, t.plain_vni, t.quote_mem_vxIface]
  tauto

def StaticAddress.addrPieces (a : StaticAddress) : List Piece :=
  [fixedWords ["ip", "addr", "replace"], .bare a.ip.text, fixedWords ["dev"], .quoted a.iface.text,
    andThenPiece, fixedWords ["ip", "link", "set"], .quoted a.iface.text]

def StaticAddress.routePieces (gw : Token) : List Piece :=
  [fixedWords ["up"], andThenPiece, fixedWords ["ip", "route", "replace", "default", "via"],
    .bare gw.text, fixedWords ["dev"]]

theorem StaticAddress.addrPieces_wellFormed (a : StaticAddress) : ∀ p ∈ a.addrPieces, p.WellFormed := by
  simp only [addrPieces, forall_mem_cons]
  exact ⟨fixedWords_wellFormed (by decide), a.ip.bare_wellFormed, fixedWords_wellFormed (by decide),
    a.iface.quoted_wellFormed, andThenPiece_wellFormed, fixedWords_wellFormed (by decide),
    a.iface.quoted_wellFormed, by simp⟩

theorem StaticAddress.routePieces_wellFormed (gw : Token) : ∀ p ∈ routePieces gw, p.WellFormed := by
  simp only [routePieces, forall_mem_cons]
  exact ⟨fixedWords_wellFormed (by decide), andThenPiece_wellFormed, fixedWords_wellFormed (by decide),
    gw.bare_wellFormed, fixedWords_wellFormed (by decide), by simp⟩

theorem StaticAddress.readAs_iff_of_none {a : StaticAddress} (hgw : a.gw = none) :
    readAs a.commandLine = some a.intended ↔ '\'' ∉ a.iface.text ∧ Plain a.ip.text := by
  have hline : a.commandLine = a.addrPieces.flatMap Piece.text ++ "up".toList := by
    obtain ⟨iface, ip, gw⟩ := a
    subst hgw
    simp only [addrPieces, flatMap_cons, flatMap_nil, Piece.text, append_assoc,
      cons_append, nil_append]
    rfl
  have hintended : a.intended = a.addrPieces.flatMap Piece.items ++ command ["up".toList] := by
    simp only [intended, hgw, setUp, addrPieces, fixedWords, andThenPiece, command_cons, command_nil,
      map_cons, map_nil, flatMap_cons, flatMap_nil, Piece.items,
      append_assoc, append_nil]
  rw [hline, hintended, readAs_pieces_iff a.addrPieces_wellFormed, and_iff_left readAs_up]
  simp only [addrPieces, forall_mem_cons, not_mem_nil, false_imp_iff, implies_true,
    fixedWords_harmless, andThenPiece_harmless, Piece.harmless_bare, Piece.harmless_quoted]
  tauto

theorem StaticAddress.readAs_iff_of_some {a : StaticAddress} {gw : Token} (hgw : a.gw = some gw) :
    readAs a.commandLine = some a.intended ↔
      '\'' ∉ a.iface.text ∧ Plain a.ip.text ∧ Plain gw.text := by
  have hline : a.commandLine = (a.addrPieces ++ routePieces gw).flatMap Piece.text ++
      '\'' :: (a.iface.text ++ ['\'']) := by
    obtain ⟨iface, ip, gw⟩ := a
    subst hgw
    simp only [addrPieces, routePieces, flatMap_cons, flatMap_nil, Piece.text,
      append_assoc, cons_append, nil_append]
    rfl
  have hintended : a.intended = (a.addrPieces ++ routePieces gw).flatMap Piece.items ++
      (literal a.iface.text ++ [Item.wordEnd]) := by
    simp only [intended, hgw, setUp, addrPieces, routePieces, fixedWords, andThenPiece, command_cons,
      command_nil, map_cons, map_nil, flatMap_append, flatMap_cons,
      flatMap_nil, Piece.items, append_assoc, append_nil]
  have hpieces : ∀ p ∈ a.addrPieces ++ routePieces gw, p.WellFormed :=
    forall_mem_append.mpr ⟨a.addrPieces_wellFormed, routePieces_wellFormed gw⟩
  have hlast := quoted_last_iff a.iface.quoted_wellFormed
  rw [hline, hintended, readAs_pieces_iff hpieces, literal, hlast]
  simp only [addrPieces, routePieces, forall_mem_append, forall_mem_cons, not_mem_nil,
    false_imp_iff, implies_true, fixedWords_harmless, andThenPiece_harmless, Piece.harmless_bare,
    Piece.harmless_quoted]
  tauto

theorem StaticAddress.readAs_iff (a : StaticAddress) :
    readAs a.commandLine = some a.intended ↔
      '\'' ∉ a.iface.text ∧ Plain a.ip.text ∧ ∀ gw ∈ a.gw, Plain gw.text := by
  cases hgw : a.gw with
  | none => simpa using readAs_iff_of_none hgw
  | some gw => simpa using readAs_iff_of_some hgw

theorem VlanTag.quoted_vlanIface (v : VlanTag) : (Piece.quoted v.vlanIface).WellFormed := by
  intro hmem
  rcases mem_append.mp hmem with hmem | hmem
  · exact (v.iface.noBlank _ hmem).1 rfl
  rcases mem_append.mp hmem with hmem | hmem
  · exact absurd hmem (by decide)
  · exact (v.id.noBlank _ hmem).1 rfl

def VlanTag.pieces (v : VlanTag) : List Piece :=
  [fixedWords ["ip", "link", "add", "link"], .quoted v.iface.text, fixedWords ["name"],
    .quoted v.vlanIface, fixedWords ["type", "vlan", "id"], .bare v.id.text, andThenPiece,
    fixedWords ["ip", "link", "set"], .quoted v.vlanIface]

theorem VlanTag.pieces_wellFormed (v : VlanTag) : ∀ p ∈ v.pieces, p.WellFormed := by
  simp only [pieces, forall_mem_cons]
  exact ⟨fixedWords_wellFormed (by decide), v.iface.quoted_wellFormed, fixedWords_wellFormed (by decide),
    v.quoted_vlanIface, fixedWords_wellFormed (by decide), v.id.bare_wellFormed, andThenPiece_wellFormed,
    fixedWords_wellFormed (by decide), v.quoted_vlanIface, by simp⟩

theorem VlanTag.quote_mem_vlanIface {v : VlanTag} (hid : Plain v.id.text) :
    '\'' ∈ v.vlanIface ↔ '\'' ∈ v.iface.text := by
  have hquote : '\'' ∉ v.id.text := quote_not_mem_of_plain hid.2.2
  simp [vlanIface, hquote]

theorem VlanTag.readAs_iff (v : VlanTag) :
    readAs v.commandLine = some v.intended ↔ '\'' ∉ v.iface.text ∧ Plain v.id.text := by
  have hline : v.commandLine = v.pieces.flatMap Piece.text ++ "up".toList := by
    simp only [pieces, flatMap_cons, flatMap_nil, Piece.text, append_assoc,
      cons_append, nil_append]
    rfl
  have hintended : v.intended = v.pieces.flatMap Piece.items ++ command ["up".toList] := by
    simp only [intended, setUp, pieces, fixedWords, andThenPiece, command_cons, command_nil,
      map_cons, map_nil, flatMap_cons, flatMap_nil, Piece.items,
      append_assoc, nil_append]
  have hharmless : (∀ p ∈ v.pieces, p.Harmless) ↔
      '\'' ∉ v.iface.text ∧ '\'' ∉ v.vlanIface ∧ Plain v.id.text := by
    simp only [pieces, forall_mem_cons, not_mem_nil, false_imp_iff, implies_true,
      fixedWords_harmless, andThenPiece_harmless, Piece.harmless_bare, Piece.harmless_quoted]
    tauto
  rw [hline, hintended, readAs_pieces_iff v.pieces_wellFormed, and_iff_left readAs_up, hharmless]
  constructor
  · rintro ⟨hiface, _, hid⟩
    exact ⟨hiface, hid⟩
  · rintro ⟨hiface, hid⟩
    exact ⟨hiface, mt (quote_mem_vlanIface hid).mp hiface, hid⟩

/-- A line for which a command is run. -/
inductive Rule where
  | qos (r : QosRule)
  | acl (useNft : Bool) (r : AclRule)
  | tunnel (t : Tunnel)
  | static (a : StaticAddress)
  | vlan (v : VlanTag)

namespace Rule

def commandLine : Rule → List Char
  | .qos r => r.commandLine
  | .acl useNft r => r.commandLine useNft
  | .tunnel t => t.commandLine
  | .static a => a.commandLine
  | .vlan v => v.commandLine

/-- The commands of the feature, with the fields of the line as words or parts of words. -/
def intended : Rule → List Item
  | .qos r => r.intended
  | .acl useNft r => r.intended useNft
  | .tunnel t => t.intended
  | .static a => a.intended
  | .vlan v => v.intended

def FieldsHarmless : Rule → Prop
  | .qos r => '\'' ∉ r.iface.text
  | .acl _ r => r.FieldsHarmless
  | .tunnel t => '\'' ∉ t.iface.text ∧ Plain t.remote.text
  | .static a => '\'' ∉ a.iface.text ∧ Plain a.ip.text ∧ ∀ gw ∈ a.gw, Plain gw.text
  | .vlan v => '\'' ∉ v.iface.text ∧ Plain v.id.text

theorem readAs_iff (r : Rule) : readAs r.commandLine = some r.intended ↔ r.FieldsHarmless := by
  cases r with
  | qos r => exact r.readAs_iff
  | acl useNft r => exact r.readAs_iff useNft
  | tunnel t => exact t.readAs_iff
  | static a => exact a.readAs_iff
  | vlan v => exact v.readAs_iff

end Rule

/-- What the init process finds when it configures the network. -/
structure Files where
  qos : List Char
  acl : List Char
  tunnel : List Char
  static : List Char
  vlan : List Char
  interfaces : List (List Char)
  useNft : Bool

/-- The lines for which commands are run, in the order in which they are. -/
def Files.rules (files : Files) : List Rule :=
  ((files.interfaces.filter isExtraInterface).filterMap fun iface =>
    (vlanOf files.vlan iface).map .vlan) ++
  (rulesOf 256 parseAcl files.acl).map (.acl files.useNft) ++
  (rulesOf 128 parseQos files.qos).map .qos ++
  (rulesOf 160 parseStatic files.static).map .static ++
  (rulesOf 160 parseTunnel files.tunnel).map .tunnel

/-- The shell reads every command line as the commands it is meant to be, exactly if the
fields of every line that is accepted are harmless. -/
theorem only_fixed_commands_iff (files : Files) :
    (∀ r ∈ files.rules, readAs r.commandLine = some r.intended) ↔
      ∀ r ∈ files.rules, r.FieldsHarmless := by
  constructor
  · intro h r hr
    exact r.readAs_iff.mp (h r hr)
  · intro h r hr
    exact r.readAs_iff.mpr (h r hr)

def rebootFiles : Files :=
  { qos := [], acl := "drop tcp $(reboot)\n".toList, tunnel := [], static := [], vlan := [],
    interfaces := [], useNft := true }

/-- The source range of a firewall rule is a command that is run. -/
theorem acl_line_runs_command :
    rebootFiles.rules.map Rule.commandLine =
      ["nft add rule inet filter input drop tcp saddr $(reboot) ".toList] ∧
    readAs "nft add rule inet filter input drop tcp saddr $(reboot) ".toList =
      some (command ["nft".toList, "add".toList, "rule".toList, "inet".toList, "filter".toList,
        "input".toList, "drop".toList, "tcp".toList, "saddr".toList] ++
        .substOpen false :: command ["reboot".toList] ++ [.substClose, .wordEnd]) ∧
    ¬ ∀ r ∈ rebootFiles.rules, readAs r.commandLine = some r.intended := by
  decide +kernel

end WslPlus.NetConfig
