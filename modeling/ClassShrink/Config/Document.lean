import ClassShrink.Config.Basic
import ClassShrink.Json.Record

/-! # Configurations in documents

The records of a configuration, read in any dialect. Everything has a default
except the class of a keep pattern. -/

namespace ClassShrink

variable {α : Type}

def KeepPattern.read? (dialect : Dialect α) (value : α) : Option KeepPattern := do
  let fields ← dialect.fields? ["class", "methods"] value
  let suffix ← Record.required? dialect.text? "class" fields
  let methods ← Record.optional? dialect.texts? [] "methods" fields
  some { suffix, methods }

def WorklistOrder.read? (dialect : Dialect α) (value : α) : Option WorklistOrder :=
  (dialect.choice? value).bind WorklistOrder.ofName?

def AnalysisConfig.read? (dialect : Dialect α) (value : α) : Option AnalysisConfig := do
  let fields ← dialect.fields? ["parallel", "worklist"] value
  let parallel ← Record.optional? dialect.flag? false "parallel" fields
  let worklist ← Record.optional? (WorklistOrder.read? dialect) .depthFirst "worklist" fields
  some { parallel, worklist }

namespace Config

def readReportFormat? (dialect : Dialect α) (value : α) : Option String := do
  let fields ← dialect.fields? ["format"] value
  Record.optional? dialect.text? ({} : Config).reportFormat "format" fields

def read? (dialect : Dialect α) (value : α) : Option Config := do
  let fields ← dialect.fields?
    ["keep", "keep_annotations", "entry_points", "analysis", "report"] value
  let keep ← Record.optional? (dialect.list? (KeepPattern.read? dialect)) [] "keep" fields
  let keepAnnotations ← Record.optional? dialect.texts? [] "keep_annotations" fields
  let entryPoints ← Record.optional? dialect.texts? [] "entry_points" fields
  let analysis ← Record.optional? (AnalysisConfig.read? dialect) {} "analysis" fields
  let reportFormat ← Record.optional? (readReportFormat? dialect)
    ({} : Config).reportFormat "report" fields
  some { keep, keepAnnotations, entryPoints, analysis, reportFormat }

def ofJson? (value : Json) : Option Config :=
  read? Json.dialect value

def toJson (config : Config) : Json :=
  .object
    [("keep", .array (config.keep.map fun pattern => .object
        [("class", .string pattern.suffix), ("methods", .ofTexts pattern.methods)])),
      ("keep_annotations", .ofTexts config.keepAnnotations),
      ("entry_points", .ofTexts config.entryPoints),
      ("analysis", .object
        [("parallel", .bool config.analysis.parallel),
          ("worklist", .string config.analysis.worklist.name)]),
      ("report", .object [("format", .string config.reportFormat)])]

end Config

end ClassShrink
