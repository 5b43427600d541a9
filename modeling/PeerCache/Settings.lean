import PeerCache.Net.Reader
import PeerCache.Policy
import PeerCache.Text.Quoted
import PeerCache.Toml.Document

/-!
# `PeerCache.Settings`: how a node wants its cache

Settings are a policy, the endpoints to start from, the address that these are
learned from, and the path of the peers file. They are built in code or read from
a TOML document:

```toml
[addrman]
network = "testnet"
allow_non_routable = false
consistency_checks = true
peers_file = "peers.dat"

[bootstrap]
seeds = ["203.0.113.10:8333"]
source = "203.0.113.10"
```

Everything is optional. Unknown keys are ignored, a key with a value of the wrong
kind is not. A section may also be written as a list of all its values. Seeds that
do not denote an endpoint are skipped. The network is looked at before the source.
-/

set_option autoImplicit false

namespace PeerCache

/-- How a node wants its cache. -/
structure Settings where
  policy : Policy
  seeds : List Endpoint
  /-- The address that the seeds are learned from. -/
  source : Option Ip
  peersFile : Option String
deriving DecidableEq

/-- Why a document gives no settings. -/
inductive SettingsError where
  /-- The document cannot be read as text. -/
  | unreadable
  /-- The document breaks the format, or a value is of the wrong kind. -/
  | malformed
  | unknownNetwork (name : String)
  | invalidSource (text : String)
deriving DecidableEq

/-- The wording of the error. -/
def SettingsError.message : SettingsError → String
  | .unreadable => "failed to read config"
  | .malformed => "failed to parse config"
  | .unknownNetwork name =>
    "unknown network " ++ Text.quoted name ++ " (expected mainnet, testnet or regtest)"
  | .invalidSource text => "invalid bootstrap source " ++ Text.quoted text

namespace Settings

/-- The standard policy and nothing else. -/
def standard : Settings := ⟨.standard, [], none, none⟩

instance : Inhabited Settings := ⟨standard⟩

/-- The settings with another policy. -/
def withPolicy (s : Settings) (policy : Policy) : Settings := { s with policy }

/-- The settings with other seeds and the address that they are learned from. -/
def withSeeds (s : Settings) (seeds : List Endpoint) (source : Option Ip) : Settings :=
  { s with seeds, source }

/-- The settings with a peers file. -/
def withPeersFile (s : Settings) (path : String) : Settings := { s with peersFile := some path }

/-- The seeds, each with the address that it is learned from. Without a source a seed speaks for
itself. -/
def seedPairs (s : Settings) : List (Endpoint × Ip) := s.seeds.map fun e => (e, s.source.getD e.ip)

end Settings

namespace Toml

/-- The values of the named fields in a section. A list gives them in the order of the names
and must be long enough. A time is a section without any of them. -/
def Item.fields? (names : List String) : Item → Option Entries
  | .table _ entries => some entries
  | .list items => if names.length ≤ items.length then some (names.zip items) else none
  | .tables elements =>
    if names.length ≤ elements.length then
      some (names.zip (elements.reverse.map (.table .declared)))
    else none
  | .time => some []
  | _ => none

/-- An item that must be text. -/
def Item.text? : Item → Option String
  | .text s => some s
  | _ => none

/-- An item that must be true or false. -/
def Item.boolean? : Item → Option Bool
  | .boolean b => some b
  | _ => none

/-- An item that must be a list of texts. -/
def Item.texts? : Item → Option (List String)
  | .list items => items.mapM Item.text?
  | _ => none

namespace Entries

/-- The fields of a section, none when the section is missing. -/
def part (entries : Entries) (name : String) (fields : List String) : Option Entries :=
  match entries.lookup name with
  | some item => item.fields? fields
  | none => some []

/-- A field that may be missing, but must be of its kind where it is not. -/
def field {α : Type} (entries : Entries) (name : String) (kind : Item → Option α) :
    Option (Option α) :=
  match entries.lookup name with
  | some item => some <$> kind item
  | none => some none

end Entries

end Toml

/-- What a document says, before any of it is interpreted. -/
structure SettingsDocument where
  network : Option String
  allowUnroutable : Option Bool
  audits : Option Bool
  peersFile : Option String
  seeds : List String
  source : Option String

namespace SettingsDocument

/-- Finds the fields in a document. -/
def ofEntries? (root : Toml.Entries) : Option SettingsDocument := do
  let rules ← root.part "addrman"
    ["network", "allow_non_routable", "consistency_checks", "peers_file"]
  let start ← root.part "bootstrap" ["seeds", "source"]
  return {
    network := ← rules.field "network" Toml.Item.text?
    allowUnroutable := ← rules.field "allow_non_routable" Toml.Item.boolean?
    audits := ← rules.field "consistency_checks" Toml.Item.boolean?
    peersFile := ← rules.field "peers_file" Toml.Item.text?
    seeds := (← start.field "seeds" Toml.Item.texts?).getD []
    source := ← start.field "source" Toml.Item.text? }

/-- The network that a document names. -/
def magic (d : SettingsDocument) : Except SettingsError NetworkMagic :=
  match d.network with
  | none => .ok Policy.standard.magic
  | some name =>
    match NetworkMagic.ofName? name with
    | some magic => .ok magic
    | none => .error (.unknownNetwork name)

/-- The address that a document wants its seeds learned from. -/
def sourceIp (d : SettingsDocument) : Except SettingsError (Option Ip) :=
  match d.source with
  | none => .ok none
  | some text =>
    match Ip.ofText? text with
    | some ip => .ok (some ip)
    | none => .error (.invalidSource text)

/-- The settings that a document means. -/
def interpret (d : SettingsDocument) : Except SettingsError Settings := do
  let policy : Policy :=
    ⟨d.allowUnroutable.getD Policy.standard.allowUnroutable,
     d.audits.getD Policy.standard.audits, ← d.magic⟩
  return ⟨policy, d.seeds.filterMap Endpoint.ofText?, ← d.sourceIp, d.peersFile⟩

end SettingsDocument

namespace Settings

/-- The settings in a TOML document. -/
def ofText (text : String) : Except SettingsError Settings :=
  match (Toml.ofText? text).bind SettingsDocument.ofEntries? with
  | some document => document.interpret
  | none => .error .malformed

/-- The settings in the bytes of a file, if there is one. -/
def ofFile (content : Option Bytes) : Except SettingsError Settings :=
  match content.bind fun bytes => String.fromUTF8? ⟨bytes.toArray⟩ with
  | some text => ofText text
  | none => .error .unreadable

end Settings

end PeerCache
