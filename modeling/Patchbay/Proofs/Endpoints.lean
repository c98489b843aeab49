import Patchbay.Endpoint
import Patchbay.Proofs.Texts

/-!
# URLs of endpoints

Which URLs name an endpoint, and which one. The URL of an endpoint is canonical: it names that
endpoint, and it is the URL that was read but for the second name of the scheme of socket paths.
-/

namespace Patchbay.Endpoint

open Text

variable {url scheme address : String} {text front rest : List Char} {e : Endpoint}

/-! ## What is named -/

/-- What an address under a scheme names. -/
inductive Names (scheme address : String) : Endpoint → Prop where
  | inproc (named : scheme = "inproc") : Names scheme address (.inproc address)
  | tcp {host port : List Char} {number : Nat} (named : scheme = "tcp")
      (split : LastSplit [':'] address.toList host port) (some : host ≠ [])
      (numeral : Numeral number port) (fits : number < 65536) : Names scheme address (.tcp address)
  | path (named : scheme = "ipc" ∨ scheme = "unix") (short : address.utf8ByteSize < 104) :
      Names scheme address (.ipc address)

theorem Names.address_eq (names : Names scheme address e) : e.address = address := by
  cases names <;> rfl

theorem Names.scheme_eq (names : Names scheme address e) :
    e.scheme = if scheme = "unix" then "ipc" else scheme := by
  cases names with
  | inproc named | tcp named => rw [named]; rfl
  | path named => rcases named with rfl | rfl <;> rfl

/-- An endpoint is also named by the scheme that it is written with. -/
theorem Names.canonical (names : Names scheme address e) : Names e.scheme address e := by
  cases names with
  | inproc named => exact .inproc rfl
  | tcp named split some numeral fits => exact .tcp rfl split some numeral fits
  | path named short => exact .path (.inl rfl) short

/-! ## Reading -/

theorem ofAddress_eq_ok_iff :
    ofAddress address.toList = .ok e ↔ Names "tcp" address e := by
  constructor
  · intro read
    unfold ofAddress at read
    split at read
    · cases read
    · cases read
    · next host port filled split =>
      split at read
      · next number found =>
        cases read
        obtain ⟨numeral, fits⟩ := unsigned?_eq_some_iff.1 found
        have small : number < 65536 := Nat.lt_succ_of_le fits
        rw [String.ofList_toList]
        exact .tcp rfl (splitLast_eq_some_iff.1 split) filled numeral small
      · cases read
  · intro names
    cases names with
    | inproc named => simp at named
    | @tcp host port number _ split some numeral fits =>
      obtain ⟨c, others, rfl⟩ := List.exists_cons_of_ne_nil some
      have small : number ≤ 65535 := Nat.le_of_lt_succ fits
      unfold ofAddress
      rw [splitLast_eq_some_iff.2 split]
      dsimp only
      rw [unsigned?_eq_some_iff.2 ⟨numeral, small⟩, String.ofList_toList]
    | path named => simp at named

theorem ofPath_eq_ok_iff {path : String} :
    ofPath path = .ok e ↔ path.utf8ByteSize < 104 ∧ e = .ipc path := by
  unfold ofPath pathLimit
  split
  · next short => simp [short, eq_comm]
  · next long => simp [long]

/-- A URL names an endpoint when it splits at the first separator into a scheme and an address. -/
theorem read_eq_ok_iff :
    read text = .ok e ↔ ∃ front rest, FirstSplit separator.toList text front rest ∧
      rest ≠ [] ∧ Names (String.ofList front) (String.ofList rest) e := by
  have separates : separator.toList ≠ [] := by decide
  constructor
  · intro found
    unfold read at found
    split at found
    · cases found
    · next front rest split =>
      obtain ⟨_, rfl, parts⟩ := (splitFirst_eq_some_iff separates).1 split
      split at found
      · cases found
      · next filled =>
        refine ⟨_, rest, parts, mt List.isEmpty_iff.2 filled, ?_⟩
        split at found
        · next named =>
          cases found
          exact .inproc named
        · next named =>
          rw [named]
          exact ofAddress_eq_ok_iff.1 (by rwa [String.toList_ofList])
        · next named =>
          obtain ⟨short, rfl⟩ := ofPath_eq_ok_iff.1 found
          exact .path (.inl named) short
        · next named =>
          obtain ⟨short, rfl⟩ := ofPath_eq_ok_iff.1 found
          exact .path (.inr named) short
        · cases found
  · rintro ⟨front, rest, parts, filled, names⟩
    have split : splitFirst separator.toList [] text = some (front, rest) :=
      (splitFirst_eq_some_iff separates).2 ⟨front, rfl, parts⟩
    rw [read, split]
    dsimp only
    rw [if_neg (mt List.isEmpty_iff.1 filled)]
    cases names with
    | inproc named =>
      rw [named]
      rfl
    | tcp named split some numeral fits =>
      rw [named]
      have read := ofAddress_eq_ok_iff.2 (.tcp rfl split some numeral fits)
      rwa [String.toList_ofList] at read
    | path named short =>
      have read := ofPath_eq_ok_iff.2 ⟨short, rfl⟩
      rcases named with named | named <;> rw [named] <;> exact read

theorem ofUrl_eq_ok_iff_read : ofUrl url = .ok e ↔ read url.toList = .ok e := by
  unfold ofUrl
  split
  · next found => rw [found, Except.ok.injEq, Except.ok.injEq]
  · next found => simp [found]

theorem ofUrl_eq_ok_iff :
    ofUrl url = .ok e ↔ ∃ scheme address : String,
      FirstSplit separator.toList url.toList scheme.toList address.toList ∧ address ≠ "" ∧
        Names scheme address e := by
  rw [ofUrl_eq_ok_iff_read, read_eq_ok_iff]
  constructor
  · rintro ⟨front, rest, parts, filled, names⟩
    refine ⟨String.ofList front, String.ofList rest, ?_, ?_, names⟩
    · rwa [String.toList_ofList, String.toList_ofList]
    · rintro empty
      exact filled (by rw [← String.toList_ofList (l := rest), empty]; rfl)
  · rintro ⟨scheme, address, parts, filled, names⟩
    refine ⟨scheme.toList, address.toList, parts, mt String.toList_eq_nil_iff.1 filled, ?_⟩
    rwa [String.ofList_toList, String.ofList_toList]

/-! ## Writing -/

/-- A scheme without a colon ends at the first separator. -/
theorem firstSplit_of_scheme (free : ':' ∉ scheme.toList) (address : String) :
    FirstSplit separator.toList (scheme ++ separator ++ address).toList scheme.toList
      address.toList := by
  have slashes : separator.toList = ':' :: ['/', '/'] := rfl
  rw [String.toList_append, String.toList_append, slashes]
  exact firstSplit_of_not_mem free _ _

theorem colon_not_mem_scheme (e : Endpoint) : ':' ∉ e.scheme.toList := by
  cases e <;> simp [Endpoint.scheme]

/-- The URL of an endpoint that was read. -/
theorem url_of_names (names : Names scheme address e) :
    e.url = (if scheme = "unix" then "ipc" else scheme) ++ separator ++ address := by
  rw [Endpoint.url, names.scheme_eq, names.address_eq]

theorem ofUrl_url (names : Names scheme address e) (filled : address ≠ "") :
    ofUrl e.url = .ok e := by
  rw [Endpoint.url, names.address_eq]
  exact ofUrl_eq_ok_iff.2 ⟨e.scheme, address, firstSplit_of_scheme e.colon_not_mem_scheme address,
    filled, names.canonical⟩

theorem eq_of_firstSplit
    (parts : FirstSplit separator.toList url.toList scheme.toList address.toList) :
    url = scheme ++ separator ++ address := by
  apply String.toList_inj.1
  rw [parts.whole, String.toList_append, String.toList_append]

/-! ## Main result -/

/-- A URL names an endpoint when, taken apart at the first separator, it has an address that the
scheme admits; and the endpoint is named again by its own URL, which is the one that was read, with
`ipc` in place of `unix`. -/
theorem url_canonical :
    (∀ (url : String) (e : Endpoint), ofUrl url = .ok e →
      ofUrl e.url = .ok e ∧
        (∀ path, url = "unix://" ++ path → e.url = "ipc://" ++ path) ∧
        ((∀ path, url ≠ "unix://" ++ path) → e.url = url)) ∧
    ∀ (url : String) (e : Endpoint), ofUrl url = .ok e ↔ ∃ scheme address : String,
      FirstSplit "://".toList url.toList scheme.toList address.toList ∧ address ≠ "" ∧
        Names scheme address e := by
  refine ⟨fun url e read => ?_, fun url e => ofUrl_eq_ok_iff⟩
  obtain ⟨scheme, address, parts, filled, names⟩ := ofUrl_eq_ok_iff.1 read
  have whole := eq_of_firstSplit parts
  have written := url_of_names names
  refine ⟨ofUrl_url names filled, ?_, ?_⟩
  · rintro path rfl
    have free : ':' ∉ "unix".toList := by decide
    obtain ⟨same, rest⟩ := parts.unique (firstSplit_of_scheme free path)
    rw [written, String.toList_inj.1 same, String.toList_inj.1 rest]
    rfl
  · intro other
    have named : scheme ≠ "unix" := by
      rintro rfl
      exact other address whole
    rw [written, if_neg named, whole]

/-- A path with separators of its own, a host with colons and a port with a sign and zeros. -/
theorem url_canonical_separators :
    ofUrl "unix://a://b" = .ok (.ipc "a://b") ∧ (ipc "a://b").url = "ipc://a://b" ∧
      ofUrl "ipc://a://b" = .ok (.ipc "a://b") ∧
      ofUrl "tcp://[::1]:+0080" = .ok (.tcp "[::1]:+0080") ∧
      ofUrl (tcp "[::1]:+0080").url = .ok (.tcp "[::1]:+0080") := by
  have path : ofUrl "unix://a://b" = .ok (.ipc "a://b") := rfl
  have address : ofUrl "tcp://[::1]:+0080" = .ok (.tcp "[::1]:+0080") := rfl
  obtain ⟨again, renamed, -⟩ := url_canonical.1 _ _ path
  exact ⟨path, renamed "a://b" rfl, again, address, (url_canonical.1 _ _ address).1⟩

end Patchbay.Endpoint
