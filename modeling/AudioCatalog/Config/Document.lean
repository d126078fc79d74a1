import AudioCatalog.Config.Basic
import AudioCatalog.Text.Blank
import AudioCatalog.Yaml.Node
import AudioCatalog.Yaml.Written

namespace AudioCatalog.Config

structure Form (α : Type) where
  read? : Yaml.Node → Option α
  write : α → List Char

namespace Form

def readText? : Yaml.Node → Option String
  | .scalar text _ => some text
  | _ => none

def readPlain? : Yaml.Node → Option String
  | .scalar text true => some text
  | _ => none

def isLeftOut (node : Yaml.Node) : Bool := readPlain? node == some ""

def readTexts? : Yaml.Node → Option (List String)
  | .sequence items => items.mapM readText?
  | node => if isLeftOut node then some [] else none

def afterKey (line : List Char) : List Char := ' ' :: line

def text : Form String := ⟨readText?, fun s => afterKey (Yaml.Written.scalar s)⟩

def writeTexts (texts : List String) : List Char :=
  if texts = [] then afterKey ['[', ']', '\n']
  else '\n' :: texts.flatMap fun s => '-' :: afterKey (Yaml.Written.scalar s)

def texts : Form (List String) := ⟨readTexts?, writeTexts⟩

def writePlain (s : String) : List Char := afterKey (s.toList ++ ['\n'])

def flag : Form Bool :=
  ⟨fun node => readPlain? node >>= Yaml.Plain.bool?,
    fun b => writePlain (if b then "true" else "false")⟩

def maxCount : Nat := UInt64.size - 1

def count : Form Nat :=
  ⟨fun node => readPlain? node >>= Yaml.Plain.natural? maxCount,
    fun n => afterKey (Nat.toDigits 10 n ++ ['\n'])⟩

end Form

structure Field where
  key : String
  read? : Yaml.Node → Config → Option Config
  write : Config → List Char

def field {α : Type} (key : String) (form : Form α) (get : Config → α)
    (set : α → Config → Config) : Field where
  key := key
  read? node c := (form.read? node).map fun a => set a c
  write c := key.toList ++ ':' :: form.write (get c)

def fields : List Field := [
  field "music_root" .text musicRoot fun s c => { c with musicRoot := s },
  field "index_path" .text indexPath fun s c => { c with indexPath := s },
  field "parser_read_style" .text readStyle fun s c => { c with readStyle := s },
  field "audio_file_extensions" .texts audioExtensions
    fun list c => { c with audioExtensions := list },
  field "exclude_dir_file_name" .text excludeMarker fun s c => { c with excludeMarker := s },
  field "cluster_types" .texts clusterTypes fun list c => { c with clusterTypes := list },
  field "skip_duplicate_recording_mbid" .flag skipsDuplicates
    fun b c => { c with skipsDuplicates := b },
  field "worker_threads" .count workerThreads fun n c => { c with workerThreads := n },
  field "batch_size" .count batchSize fun n c => { c with batchSize := n }]

def valuesOf (key : String) (entries : List (String × Yaml.Node)) : List Yaml.Node :=
  (entries.filter fun entry => entry.1 = key).map Prod.snd

/-- A setting that is left out keeps its value; one that is made twice is refused. -/
def readField? (entries : List (String × Yaml.Node)) (c : Config) (f : Field) : Option Config :=
  match valuesOf f.key entries with
  | [] => some c
  | [node] => f.read? node c
  | _ => none

def entries? : Yaml.Node → Option (List (String × Yaml.Node))
  | .mapping entries => entries.mapM fun (key, node) => do return (← Form.readText? key, node)
  | node => if Form.isLeftOut node then some [] else none

/-- Keys that name no setting are passed over. -/
def ofNode? (node : Yaml.Node) : Option Config := do
  fields.foldlM (readField? (← entries? node)) {}

def parse? (text : String) : Option Config := Yaml.Node.parse? text >>= ofNode?

def toYaml (c : Config) : String := String.ofList (fields.flatMap fun f => f.write c)

end AudioCatalog.Config
