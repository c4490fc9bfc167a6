import CodeAtlas.Snapshot

namespace CodeAtlas

def SourceClass.fields (c : SourceClass) : List (String × Value) := [
  ("name", c.name), ("full_name", c.fullName), ("package_name", c.packageName), ("file_path", c.filePath),
  ("type", c.kind), ("extends_class", c.superclass), ("implements_class", c.interface),
  ("is_abstract", .bool c.isAbstract), ("is_interface", .bool c.isInterface), ("annotations", .list c.annotations),
  ("start_line", .int c.startLine), ("end_line", .int c.endLine)]

def SourceMethod.fields (m : SourceMethod) : List (String × Value) := [
  ("name", m.name), ("full_signature", m.signature), ("class_name", m.className), ("file_path", m.filePath),
  ("modifier", m.modifier), ("is_static", .bool m.isStatic), ("return_type", m.returnType),
  ("arguments", .list m.arguments), ("annotations", .list m.annotations), ("start_line", .int m.startLine),
  ("end_line", .int m.endLine), ("calls_to", .list m.callees)]

def SourceEndpoint.fields (e : SourceEndpoint) : List (String × Value) := [
  ("path", e.path), ("method", e.verb), ("controller_class", e.controller), ("handler_method", e.handler)]

/-- How many classes, methods and endpoints a snapshot has. -/
def Snapshot.summary (s : Snapshot) : List (String × Value) := [
  ("classes", .int s.classes.length), ("methods", .int s.methods.length),
  ("api_endpoints", .int s.endpoints.length)]

end CodeAtlas
