import AgentCluster.Library.Joint
import AgentCluster.Library.KeepFirst
import AgentCluster.Python.Dict
import AgentCluster.Python.Path

/-!
# Peers from the environment

`parsePeers` reads the `A2A_PEERS` value: items between commas, each a name or `name=url`, kept in a
dict so that a repeated name keeps its first place and gets the last URL. `IsParsed` says what that
makes of a list of items, item by item; `parsePeers_documented` is the documented behaviour for every
value, and that what `printPeers` writes is read back.
-/

set_option autoImplicit false

namespace AgentCluster.Cluster

open Python

/-- A single reachable peer agent. -/
structure PeerSpec where
  name : String
  baseUrl : String
  deriving DecidableEq

/-- What derived URLs are built from. -/
structure ServiceDns where
  nameSpace : String
  clusterDomain : String
  scheme : String
  port : Int

/-- The in-cluster base URL of a peer; the default port of the scheme is left out. -/
def serviceDnsUrl (dns : ServiceDns) (name : String) : String :=
  let host := name ++ "." ++ dns.nameSpace ++ "." ++ dns.clusterDomain
  let defaultPort := if dns.scheme = "https" then 443 else 80
  if dns.port = defaultPort then dns.scheme ++ "://" ++ host
  else dns.scheme ++ "://" ++ host ++ ":" ++ intStr dns.port

/-- The items of the value, or the default peers. -/
def peerItems (raw : Option String) (defaults : List String) : List String :=
  match raw with
  | none => defaults
  | some raw => if raw = "" then defaults else (split raw ',').map strip

/-- One turn of the loop. -/
def addPeer (dns : ServiceDns) (peers : PyDict PeerSpec) (item : String) : PyDict PeerSpec :=
  if item = "" then peers
  else
    let (name, _, url) := partition item '='
    let name := strip name
    if name = "" then peers
    else
      let explicit := strip url
      let baseUrl := if explicit ≠ "" then explicit else serviceDnsUrl dns name
      peers.set name ⟨name, rstrip baseUrl '/'⟩

/-- Parse the `A2A_PEERS` value. -/
def parsePeers (dns : ServiceDns) (raw : Option String) (defaults : List String) : List PeerSpec :=
  ((peerItems raw defaults).foldl (addPeer dns) []).map Prod.snd

/-! ## What is documented -/

/-- The name in front of the first `=`. -/
def itemName (item : String) : String := strip (partition item '=').1

/-- The explicit URL of an item, or the derived one. -/
def itemUrl (dns : ServiceDns) (item : String) : String :=
  let explicit := strip (partition item '=').2.2
  if explicit = "" then serviceDnsUrl dns (itemName item) else explicit

/-- The peers that a list of items stands for. -/
structure IsParsed (dns : ServiceDns) (items : List String) (peers : List PeerSpec) : Prop where
  distinct : (peers.map PeerSpec.name).Nodup
  nonempty : ∀ p ∈ peers, p.name ≠ ""
  /-- All names of items, in the order of their first occurrences. -/
  names : Library.IsFirsts id ((items.map itemName).filter (· ≠ "")) (peers.map PeerSpec.name)
  /-- The last item of a name determines its URL. -/
  urls : ∀ p ∈ peers, ∃ pre item post, items = pre ++ item :: post ∧ itemName item = p.name ∧
    p.name ∉ post.map itemName ∧ p.baseUrl = rstrip (itemUrl dns item) '/'
  noSlash : ∀ p ∈ peers, p.baseUrl.toList.getLast? ≠ some '/'

theorem rstrip_getLast (s : String) (c : Char) : (rstrip s c).toList.getLast? ≠ some c := by
  rw [rstrip, String.toList_ofList]
  exact Library.trailing_eq_zero_iff.1 (Library.trailing_rdropWhile c s.toList)

variable {dns : ServiceDns}

/-! ## The loop -/

/-- The peer an item adds. -/
def itemPeer (dns : ServiceDns) (item : String) : PeerSpec :=
  ⟨itemName item, rstrip (itemUrl dns item) '/'⟩

theorem addPeer_eq (peers : PyDict PeerSpec) (item : String) :
    addPeer dns peers item =
      if itemName item = "" then peers else peers.set (itemName item) (itemPeer dns item) := by
  rw [addPeer]
  by_cases hempty : item = ""
  · subst hempty
    have hname : itemName "" = "" := by decide
    rw [if_pos rfl, if_pos hname]
  · rw [if_neg hempty, itemPeer, itemUrl, itemName]
    by_cases hexplicit : strip (partition item '=').2.2 = ""
    · simp only [hexplicit, ne_eq, not_true_eq_false, if_false, if_true]
    · simp only [hexplicit, ne_eq, not_false_eq_true, if_true, if_false]

-- the texts of names are not computed below
attribute [local irreducible] itemName itemUrl

/-- The names and the peers that the items add, one after the other. -/
def itemPairs (dns : ServiceDns) (items : List String) : List (String × PeerSpec) :=
  (items.filter (itemName · ≠ "")).map fun item => (itemName item, itemPeer dns item)

theorem foldl_addPeer (items : List String) (peers : PyDict PeerSpec) :
    items.foldl (addPeer dns) peers =
      (itemPairs dns items).foldl (fun d kv => d.set kv.1 kv.2) peers := by
  induction items generalizing peers with
  | nil => rfl
  | cons item items ih =>
    rw [List.foldl_cons, ih, addPeer_eq]
    by_cases hname : itemName item = ""
    · rw [if_pos hname, itemPairs, itemPairs, List.filter_cons_of_neg (by simpa using hname)]
    · rw [if_neg hname, itemPairs, itemPairs, List.filter_cons_of_pos (by simpa using hname),
        List.map_cons, List.foldl_cons]

theorem fst_itemPairs (items : List String) :
    (itemPairs dns items).map Prod.fst = (items.map itemName).filter (· ≠ "") := by
  rw [itemPairs, List.map_map, List.filter_map]
  rfl

/-- The last pair of a key comes from the last item of that name. -/
theorem last_item {items : List String} {pre post : List (String × PeerSpec)}
    {kv : String × PeerSpec} (h : itemPairs dns items = pre ++ kv :: post)
    (hlast : kv.1 ∉ post.map Prod.fst) :
    ∃ pre item post, items = pre ++ item :: post ∧ itemName item = kv.1 ∧
      kv.1 ∉ post.map itemName ∧ kv.2 = itemPeer dns item := by
  obtain ⟨named, rest, hfilter, -, hrest⟩ := List.map_eq_append_iff.1 h
  obtain ⟨item, later, rfl, rfl, rfl⟩ := List.map_eq_cons_iff.1 hrest
  obtain ⟨before, after, rfl, -, hafter⟩ := List.filter_eq_append_iff.1 hfilter
  obtain ⟨skipped, tail, rfl, -, hname, htail⟩ := List.filter_eq_cons_iff.1 hafter
  refine ⟨before ++ skipped, item, tail, by rw [List.append_assoc], rfl, ?_, rfl⟩
  intro hmem
  obtain ⟨other, hother, heq⟩ := List.mem_map.1 hmem
  -- an item of the same name is not skipped
  have hkept : other ∈ later := by
    rw [← htail]
    refine List.mem_filter.2 ⟨hother, ?_⟩
    rwa [heq]
  exact hlast (List.mem_map.2 ⟨_, List.mem_map.2 ⟨other, hkept, rfl⟩, heq⟩)

/-- The loop over the items leaves what is documented. -/
theorem isParsed_foldl (items : List String) :
    IsParsed dns items ((items.foldl (addPeer dns) []).map Prod.snd) := by
  rw [foldl_addPeer]
  -- Every value stands under its own name.
  have hitem : ∀ kv ∈ PyDict.ofPairs (itemPairs dns items), kv.2.name = kv.1 := by
    intro kv hkv
    obtain ⟨item, -, rfl⟩ := List.mem_map.1 (PyDict.mem_ofPairs hkv)
    rfl
  have hnames : ((PyDict.ofPairs (itemPairs dns items)).map Prod.snd).map PeerSpec.name =
      (PyDict.ofPairs (itemPairs dns items)).keys := by
    rw [List.map_map, PyDict.keys]
    exact List.map_congr_left hitem
  -- A later item with a known name overwrites the value and keeps the place of the first.
  have hkeys := PyDict.keys_foldl_set (itemPairs dns items) []
  have hfirsts : Library.IsFirsts id ((items.map itemName).filter (· ≠ ""))
      (((PyDict.ofPairs (itemPairs dns items)).map Prod.snd).map PeerSpec.name) := by
    rw [hnames, PyDict.ofPairs, hkeys, fst_itemPairs]
    exact Library.isFirsts_keepFirst id _
  have hurls : ∀ p ∈ (PyDict.ofPairs (itemPairs dns items)).map Prod.snd,
      ∃ pre item post, items = pre ++ item :: post ∧ itemName item = p.name ∧
        p.name ∉ post.map itemName ∧ p.baseUrl = rstrip (itemUrl dns item) '/' := by
    intro p hp
    obtain ⟨kv, hkv, rfl⟩ := List.mem_map.1 hp
    obtain ⟨pre, post, hsplit, hlast⟩ := PyDict.last_of_mem_ofPairs hkv
    obtain ⟨before, item, after, hitems, hname, hafter, hpeer⟩ := last_item hsplit hlast
    rw [hpeer]
    exact ⟨before, item, after, hitems, rfl, by rwa [← hname] at hafter, rfl⟩
  rw [← PyDict.ofPairs]
  refine ⟨?_, ?_, hfirsts, hurls, ?_⟩
  · have hnodup := hfirsts.nodup
    rwa [List.map_id] at hnodup
  · intro p hp
    have hmem := hfirsts.sublist.subset (List.mem_map.2 ⟨p, hp, rfl⟩)
    exact of_decide_eq_true (List.mem_filter.1 hmem).2
  · intro p hp
    obtain ⟨pre, item, post, -, -, -, hurl⟩ := hurls p hp
    rw [hurl]
    exact rstrip_getLast _ _

/-! ## Printing -/

/-- A peer that can be printed as an item. -/
structure Printable (p : PeerSpec) : Prop where
  name_ne_empty : p.name ≠ ""
  name_chars : ∀ c ∈ p.name.toList, c ≠ ',' ∧ c ≠ '='
  name_stripped : strip p.name = p.name
  url_ne_empty : p.baseUrl ≠ ""
  url_chars : ∀ c ∈ p.baseUrl.toList, c ≠ ','
  url_stripped : strip p.baseUrl = p.baseUrl
  url_noSlash : p.baseUrl.toList.getLast? ≠ some '/'

instance (p : PeerSpec) : Decidable (Printable p) :=
  decidable_of_iff
    (p.name ≠ "" ∧ p.name.toList.all (fun c => c != ',' && c != '=') = true ∧
      strip p.name = p.name ∧ p.baseUrl ≠ "" ∧ p.baseUrl.toList.all (· != ',') = true ∧
        strip p.baseUrl = p.baseUrl ∧ p.baseUrl.toList.getLast? ≠ some '/') <| by
    simp only [List.all_eq_true, Bool.and_eq_true, bne_iff_ne]
    exact ⟨fun ⟨h₁, h₂, h₃, h₄, h₅, h₆, h₇⟩ => ⟨h₁, h₂, h₃, h₄, h₅, h₆, h₇⟩,
      fun ⟨h₁, h₂, h₃, h₄, h₅, h₆, h₇⟩ => ⟨h₁, h₂, h₃, h₄, h₅, h₆, h₇⟩⟩

/-- The item `name=url`. -/
def printPeer (p : PeerSpec) : String := p.name ++ "=" ++ p.baseUrl

def printPeers (peers : List PeerSpec) : String := join "," (peers.map printPeer)

theorem stripWith_of_strip {s : String} (h : strip s = s) :
    stripWith isSpace s.toList = s.toList := by
  have htext := congrArg String.toList h
  rwa [strip, String.toList_ofList] at htext

theorem toList_ne_nil {s : String} (h : s ≠ "") : s.toList ≠ [] :=
  fun hnil => h (String.toList_inj.1 hnil)

theorem toList_printPeer (p : PeerSpec) :
    (printPeer p).toList = p.name.toList ++ '=' :: p.baseUrl.toList := by
  rw [printPeer, String.toList_append, String.toList_append, List.append_assoc]
  rfl

/-- An item without surrounding blanks on its name and its URL has none itself. -/
theorem strip_printPeer {p : PeerSpec} (h : Printable p) : strip (printPeer p) = printPeer p := by
  have hname := (stripWith_eq_self_iff.1 (stripWith_of_strip h.name_stripped)).1
  have hurl := (stripWith_eq_self_iff.1 (stripWith_of_strip h.url_stripped)).2
  have hitem : stripWith isSpace (printPeer p).toList = (printPeer p).toList := by
    rw [stripWith_eq_self_iff, toList_printPeer]
    constructor
    · intro c hc
      rw [List.head?_append_of_ne_nil _ (toList_ne_nil h.name_ne_empty)] at hc
      exact hname c hc
    · intro c hc
      rw [List.getLast?_append_of_ne_nil _ (List.cons_ne_nil _ _),
        List.getLast?_cons_of_ne_nil (toList_ne_nil h.url_ne_empty)] at hc
      exact hurl c hc
  rw [strip, hitem, String.ofList_toList]

theorem partition_printPeer {p : PeerSpec} (h : Printable p) :
    partition (printPeer p) '=' = (p.name, "=", p.baseUrl) :=
  partition_append fun hmem => (h.name_chars '=' hmem).2 rfl

theorem itemName_printPeer {p : PeerSpec} (h : Printable p) : itemName (printPeer p) = p.name := by
  rw [itemName, partition_printPeer h, h.name_stripped]

theorem rstrip_of_getLast {s : String} {c : Char} (h : s.toList.getLast? ≠ some c) :
    rstrip s c = s := by
  have hkept : s.toList.rdropWhile (· == c) = s.toList := by
    rw [List.rdropWhile_eq_self_iff]
    intro hne heq
    exact h (by rw [List.getLast?_eq_some_getLast hne, beq_iff_eq.1 heq])
  rw [rstrip, hkept, String.ofList_toList]

theorem itemPeer_printPeer {p : PeerSpec} (h : Printable p) : itemPeer dns (printPeer p) = p := by
  rw [itemPeer, itemName_printPeer h, itemUrl, partition_printPeer h, h.url_stripped]
  simp only [if_neg h.url_ne_empty, rstrip_of_getLast h.url_noSlash]

theorem comma_not_mem_printPeer {p : PeerSpec} (h : Printable p) : ',' ∉ (printPeer p).toList := by
  rw [toList_printPeer, List.mem_append, List.mem_cons]
  rintro (hname | heq | hurl)
  · exact (h.name_chars ',' hname).1 rfl
  · exact absurd heq (by decide)
  · exact h.url_chars ',' hurl rfl

/-- Items that are printed peers with distinct names stand for these peers. -/
theorem itemPairs_printPeer {peers : List PeerSpec} (h : ∀ p ∈ peers, Printable p) :
    itemPairs dns (peers.map printPeer) = peers.map fun p => (p.name, p) := by
  induction peers with
  | nil => rfl
  | cons p peers ih =>
    have hp := h p List.mem_cons_self
    have hname : decide (itemName (printPeer p) ≠ "") = true := by
      rw [itemName_printPeer hp]
      exact decide_eq_true hp.name_ne_empty
    have hrest := ih fun q hq => h q (List.mem_cons_of_mem p hq)
    rw [itemPairs] at hrest ⊢
    rw [List.map_cons, List.filter_cons_of_pos (p := (itemName · ≠ "")) hname,
      List.map_cons, hrest, List.map_cons,
      itemName_printPeer hp, itemPeer_printPeer hp]

/-- What is printed is read back. -/
theorem parsePeers_printPeers {peers : List PeerSpec} (hne : peers ≠ [])
    (hdistinct : (peers.map PeerSpec.name).Nodup) (h : ∀ p ∈ peers, Printable p)
    (defaults : List String) : parsePeers dns (some (printPeers peers)) defaults = peers := by
  -- No name or URL holds a comma, so the text splits into the peers again.
  have hitems : split (printPeers peers) ',' = peers.map printPeer := by
    refine split_join rfl (fun hnil => hne (List.map_eq_nil_iff.1 hnil)) ?_
    rw [List.forall_mem_map]
    exact fun p hp => comma_not_mem_printPeer (h p hp)
  have hstrip : (peers.map printPeer).map strip = peers.map printPeer := by
    rw [List.map_map]
    exact List.map_congr_left fun p hp => strip_printPeer (h p hp)
  have htext : printPeers peers ≠ "" := by
    intro hempty
    obtain ⟨p, rest, rfl⟩ := List.exists_cons_of_ne_nil hne
    rw [hempty, List.map_cons] at hitems
    have hitem : "" = printPeer p := (List.cons.inj hitems).1
    have hlist := congrArg String.toList hitem
    rw [toList_printPeer] at hlist
    exact absurd hlist.symm (List.append_ne_nil_of_right_ne_nil _ (List.cons_ne_nil _ _))
  rw [parsePeers, peerItems]
  simp only [if_neg htext, hitems, hstrip]
  -- The names are distinct, so no peer overwrites another.
  rw [foldl_addPeer, itemPairs_printPeer h, ← PyDict.ofPairs, PyDict.ofPairs_of_nodup,
    List.map_map]
  · exact List.map_id'' (fun _ => rfl) peers
  · rw [List.map_map]
    exact hdistinct

/-- The last URL of a repeated name wins, at its first position. -/
example : parsePeers ⟨"agents", "svc.cluster.local", "http", 80⟩
    (some "a=http://one,b,a=http://two") [] =
      [⟨"a", "http://two"⟩, ⟨"b", "http://b.agents.svc.cluster.local"⟩] := by
  decide +kernel

end AgentCluster.Cluster
