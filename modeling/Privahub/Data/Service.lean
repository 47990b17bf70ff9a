import Privahub.Graph.Service
import Privahub.Lib.FileTree
import Privahub.Node.Service

/-!
# Uploads and downloads

`Upload` and `Download` of data_service.go over the file system. A path is the names from the root down, so what `filepath.Join` has cleaned
holds no empty name, no `.` and no `..`; `Rel` and `EvalSymlinks` are those of the standard library. What Kuscia and the database answer, the
random numbers and how the copying goes are inputs.
-/

namespace Data

open FileTree
open Node (Err)

def DefaultLocalDatasourceID : Bytes := str "default-data-source"
def DefaultLocalKusciaType : Bytes := str "localfs"
def supportedUploadSuffix : Bytes := str ".csv"
def orcMagic : Bytes := str "ORC"

namespace Err

def DataFileNameEmpty : Err := ⟨202011801, str "data.FILE_NAME_EMPTY", []⟩
def DataFileTypeNotSupport (msg : Bytes) : Err := ⟨202011802, str "data.FILE_TYPE_NOT_SUPPORT", msg⟩
def DataFileExistsError : Err := ⟨202011803, str "data.FILE_EXISTS_ERROR", []⟩
def DataFileNotExistsError : Err := ⟨202011804, str "data.FILE_NOT_EXISTS_ERROR", []⟩
def DataIllegalParamsError (msg : Bytes) : Err := ⟨202011805, str "data.ILLEGAL_PARAMS_ERROR", msg⟩
def DatatableQueryDatatableFailed (msg : Bytes) : Err := ⟨202011303, str "datatable.QUERY_DATATABLE_FAILED", msg⟩
def KusciaRpcError (msg : Bytes) : Err := ⟨202012101, str "kuscia.RPC_ERROR", msg⟩
def SystemUnknownError (msg : Bytes) : Err := ⟨202011101, str "system.UNKNOWN_ERROR", msg⟩

end Err

/-- `Join` of a cleaned path and another one. -/
def Join (dir : List Bytes) (path : Bytes) : List Bytes :=
  (elems path).foldl (fun acc c => if c = [] ∨ c = dot then acc else if c = dotdot then acc.dropLast else acc ++ [c]) dir

def Rel : List Bytes → List Bytes → List Bytes
  | b :: bs, c :: cs => if b = c then Rel bs cs else (b :: bs).map (fun _ => dotdot) ++ c :: cs
  | bs, cs => bs.map (fun _ => dotdot) ++ cs

def EvalSymlinks (t : Tree) (path : List Bytes) : Except Errno (List Bytes) := (walk t 255 [] path).map Prod.fst

def inDir (dir path : List Bytes) : Bool := decide ((Rel dir path).head? ≠ some dotdot)

/-- `strings.ContainsAny(s, "/\\")`. -/
def containsSlash (s : Bytes) : Bool := decide (47 ∈ s ∨ 92 ∈ s)

def cutSuffix (name : Bytes) : Option (Bytes × Bytes) :=
  let ext := name.reverse.takeWhile (· != 46)
  if ext.length = name.length then none else some (name.take (name.length - ext.length - 1), name.drop (name.length - ext.length - 1))

/-- `storeDir` is absolute and cleaned, `kuscia` says whether there is a client, `orcReadable` which ORC files can be converted. -/
structure DataService where
  unicode : CaseTables
  storeDir : List Bytes
  kuscia : Bool
  orcReadable : Bytes → Bool

namespace DataService

variable (s : DataService) (t : Tree)

structure DownloadDataRequest where
  nodeID : Bytes
  domainDataID : Bytes

/-- What Kuscia has for the data, its type and relative URI, and the kind of the result in the database, if it is found. -/
structure Answers where
  domainData : Except Bytes (Bytes × Bytes)
  result : Option Bytes

structure DownloadInfo where
  fileName : Bytes
  path : Option (List Bytes)
  archive : Bool
  orc : Bool
  size : Int

def escapes (dir path : List Bytes) : Bool :=
  match EvalSymlinks t path, EvalSymlinks t dir with
  | .ok real, .ok realDir => !inDir realDir real
  | _, _ => false

def payload (base kind : Bytes) (path : List Bytes) (entry : Option Entry) : Except Err DownloadInfo :=
  let lk := (Utf8.runes kind).flatMap fun r => Utf8.encodeRune (s.unicode.toLower r.1)
  if entry = some .dir ∨ str "model" <:+: lk ∨ str "rule" <:+: lk then .ok ⟨base ++ str ".tar.gz", some path, true, false, -1⟩
  else match entry with
    | some (.file content) =>
      if orcMagic <+: content then
        if s.orcReadable content then .ok ⟨base ++ str ".csv", some path, false, true, -1⟩
        else .ok ⟨base ++ str ".orc", some path, false, false, content.length⟩
      else .ok ⟨base ++ str ".csv", some path, false, false, content.length⟩
    | _ => .error Err.DataFileNotExistsError

def requested (nodeID relativeURI : Bytes) : List Bytes := Join (Join s.storeDir nodeID) relativeURI

def Download (req : DownloadDataRequest) (x : Answers) : Except Err DownloadInfo :=
  if req.nodeID = [] ∨ req.domainDataID = [] then .error (.ParamError (str "nodeId/domainDataId cannot be blank"))
  else if containsSlash req.nodeID ∨ req.nodeID = dotdot then .error (Err.DataIllegalParamsError (str "node ID cannot contains \\ or /"))
  else if s.kuscia = false then .error (Err.KusciaRpcError (str "kuscia client not configured"))
  else match x.domainData with
    | .error e => .error (Err.DatatableQueryDatatableFailed e)
    | .ok (type, relativeURI) =>
      let kind := x.result.getD type
      if relativeURI = [] then .error (Err.DataIllegalParamsError (str "relative uri is empty!"))
      else if dotdot <:+: relativeURI then
        .error (Err.DataIllegalParamsError (str "relative uri " ++ relativeURI ++ str " contains invalid character"))
      else
        let dir := Join s.storeDir req.nodeID
        let path := s.requested req.nodeID relativeURI
        if inDir dir path = false then .error Err.DataFileNotExistsError
        else if escapes t dir path then .error Err.DataFileNotExistsError
        else
          let base := Bytes.fileBase relativeURI
          match stat t path with
          | .error _ => .ok ⟨base ++ str ".csv", none, false, false, 0⟩
          | .ok loc => s.payload base kind path (t.node loc)

def checkUploadFileName (name : Bytes) : Except Err (Bytes × Bytes) :=
  if name = [] then .error Err.DataFileNameEmpty
  else if containsSlash name then .error (Err.DataIllegalParamsError (str "file name cannot contains \\ or /"))
  else match cutSuffix name with
    | none => .error (Err.DataFileTypeNotSupport (str "does not support  type file."))
    | some (pre, suffix) =>
      if Graph.EqualFold s.unicode suffix supportedUploadSuffix = false then
        .error (Err.DataFileTypeNotSupport (str "does not support " ++ suffix ++ str " type file."))
      else .ok (pre, suffix)

def realName (dir : List Bytes) (pre suffix : Bytes) (draw : Option Nat) : List (Option Nat) → Except Err Bytes
  | [] => match draw with
    | none => .error (Err.SystemUnknownError (str "Failed to generate file name"))
    | some n => .ok (pre ++ str "_" ++ Bytes.digits n ++ suffix)
  | next :: rest => match draw with
    | none => .error (Err.SystemUnknownError (str "Failed to generate file name"))
    | some n =>
      let name := pre ++ str "_" ++ Bytes.digits n ++ suffix
      if stat t (Join dir name) = .error .noent then .ok name else realName dir pre suffix next rest

structure UploadDataResultVO where
  name : Bytes
  realName : Bytes
  datasource : Bytes
  datasourceType : Bytes

/-- The content of the request, and whether it is read and written to its end and the file is closed. -/
structure Source where
  draw : Option Nat
  draws : List (Option Nat)
  content : Bytes
  copied : Bool
  closed : Bool

/-- `opened` is where a file has been created, if one has. -/
structure Uploaded where
  result : Except Err UploadDataResultVO
  tree : Tree
  opened : Option (List Bytes)

def trimBOM (content : Bytes) : Bytes := if [0xEF, 0xBB, 0xBF] <+: content then content.drop 3 else content

/-- `OpenFile` with `O_CREATE|O_EXCL` and what is written: a file whose copy fails is removed again. -/
def create (dir : List Bytes) (fileName name : Bytes) (src : Source) : Uploaded :=
  match stat t dir with
  | .error _ => ⟨.error (Err.SystemUnknownError []), t, none⟩
  | .ok loc =>
    if t.node loc = some .dir ∧ t.node (loc ++ [name]) ≠ none then ⟨.error Err.DataFileExistsError, t, none⟩
    else if h : t.node loc = some .dir ∧ NameOK name ∧ t.node (loc ++ [name]) = none then
      if src.copied = false then ⟨.error (Err.SystemUnknownError []), t, some (loc ++ [name])⟩
      else ⟨if src.closed then .ok ⟨fileName, name, DefaultLocalDatasourceID, DefaultLocalKusciaType⟩ else .error (Err.SystemUnknownError []),
        t.insert loc name (.file (trimBOM src.content)) h, some (loc ++ [name])⟩
    else ⟨.error (Err.SystemUnknownError []), t, none⟩

def Upload (nodeID fileName : Bytes) (src : Source) : Uploaded :=
  match s.checkUploadFileName fileName with
  | .error e => ⟨.error e, t, none⟩
  | .ok (pre, suffix) =>
    if nodeID = [] then ⟨.error (Err.DataIllegalParamsError (str "Node-Id cannot be empty")), t, none⟩
    else if containsSlash nodeID ∨ nodeID = dot ∨ nodeID = dotdot then
      ⟨.error (Err.DataIllegalParamsError (str "node ID cannot contains \\ or /")), t, none⟩
    else
      let dir := Join s.storeDir nodeID
      match realName t dir pre suffix src.draw src.draws with
      | .error e => ⟨.error e, t, none⟩
      | .ok name =>
        if inDir s.storeDir (Join dir name) = false then ⟨.error (Err.DataIllegalParamsError (str "file path not in whitelist")), t, none⟩
        else match mkdirAll t dir with
          | none => ⟨.error (Err.SystemUnknownError (str "Failed to create new dir")), t, none⟩
          | some t' => create t' dir fileName name src

end DataService

end Data
